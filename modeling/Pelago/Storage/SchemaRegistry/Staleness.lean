import Mathlib.Data.Fintype.Basic
import Pelago.Storage.SchemaRegistry.Caches
import Pelago.Storage.Tenancy

open bytes kv pelago_core kv.OrdMap
open pelago_storage.Subspace (of_namespace)

namespace pelago_storage.schema

open Function
open Cluster (choose goto_phases_self initial)

variable {database ns entity_type : String} {is_alphanumeric : Char → Bool} {P J : Type} [DecidableEq P]
  [DecidableEq J] {requests : J → Request P} {s s' : Cluster P J} {j : J}

/-- The whole invariant. -/
structure Sound (requests : J → Request P) (database ns entity_type : String) (s : Cluster P J) : Prop where
  named : Named requests database ns s
  fresh : Fresh requests database ns entity_type s

structure SoundBut (requests : J → Request P) (database ns entity_type : String) (s : Cluster P J) (j : J) : Prop where
  named : Named requests database ns s
  fresh : FreshBut requests database ns entity_type s j

theorem Sound.but (h : Sound requests database ns entity_type s) (j : J) :
    SoundBut requests database ns entity_type s j := ⟨h.named, h.fresh.but j⟩

omit [DecidableEq P] [DecidableEq J] in
section

variable (h : Named requests database ns s)
include h

theorem Named.of_rows (hphases : s'.phases = s.phases)
    (hrows : ∀ name version document, s'.rows.get (versionKey database ns name version) = some (.schema document) →
      document.name = name ∧ document.version = version) : Named requests database ns s' where
  rows := hrows
  loaded j name document hcall hj := h.loaded j _ _ hcall (hphases ▸ hj)
  clearing j name other_keys async_allowed keys hcall hj :=
    h.clearing j _ _ _ _ hcall (hphases ▸ hj)

theorem Named.register (document : SchemaDocument) (version : UInt32) :
    Named requests database ns (s.register database ns document version) := by
  refine h.of_rows rfl fun name version' _ hget => ?_
  change (write_version database ns s.rows document version).get _ = _ at hget
  by_cases hname : document.name = name
  · subst hname
    by_cases hversion : version' = version
    · subst hversion
      rw [get_write_version_version] at hget
      cases hget
      exact ⟨rfl, rfl⟩
    · rw [get_write_version_other hversion] at hget
      exact h.rows _ _ _ hget
  · rw [agreeOn_write_version hname _ (typeKey_versionKey _)] at hget
    exact h.rows _ _ _ hget

theorem Named.remove (concerns : String → Bool) {rows : Rows}
    (hrows : ∀ k, rows.get k = none ∨ rows.get k = s.rows.get k) :
    Named requests database ns (s.remove concerns rows) := by
  refine h.of_rows rfl fun name _ _ hget => ?_
  change rows.get _ = _ at hget
  rcases hrows _ with hnone | hsame
  · rw [hnone] at hget
    cases hget
  · exact h.rows _ _ _ (hsame ▸ hget)

end

variable {phase : Phase}

theorem SoundBut.goto (h : SoundBut requests database ns entity_type s j)
    (hloaded : ∀ name document, (requests j).call = .get name → phase = .loaded document → document.name = name)
    (hclearing : ∀ name other_keys async_allowed keys,
      (requests j).call = .drop_entity_type name other_keys async_allowed → phase = .clearing keys →
        ∀ k ∈ keys, TypeKey database ns name k) (hj : (requests j).call.concerns entity_type = true →
      CallOk requests database ns entity_type (s.goto j phase) j) :
    Sound requests database ns entity_type (s.goto j phase) where
  named := by
    refine ⟨h.named.rows, fun i name _ hcall hi => ?_, fun i name _ _ keys hcall hi => ?_⟩
    · by_cases hij : i = j
      · subst hij
        exact hloaded _ _ hcall ((s.goto_phases_self i _).symm.trans hi)
      · exact h.named.loaded i _ _ hcall (s.goto_phases_of_ne _ hij ▸ hi)
    · by_cases hij : i = j
      · subst hij
        exact hclearing _ _ _ _ hcall ((s.goto_phases_self i _).symm.trans hi)
      · exact h.named.clearing i _ _ _ _ hcall (s.goto_phases_of_ne _ hij ▸ hi)
  fresh := h.fresh.goto hj

section Registrations

variable {document : SchemaDocument} {actor : String}

omit [DecidableEq P] [DecidableEq J] in
theorem callOk_of_document (hdocument : (requests j).document = some (document, actor)) :
    CallOk requests database ns entity_type s j ↔ RegisterOk requests database ns entity_type s j := by
  unfold CallOk
  cases hcall : (requests j).call <;> simp [Request.document, hcall] at hdocument ⊢

omit [DecidableEq P] [DecidableEq J] in
theorem concerns_of_document (hdocument : (requests j).document = some (document, actor)) :
    (requests j).call.concerns entity_type = true ↔ document.name = entity_type := by
  cases hcall : (requests j).call <;> simp [Request.document, hcall] at hdocument
  · simp [Call.concerns, hdocument.1]
  · simp [Call.concerns, hdocument.1]

/-- A registration moves to a phase in which it has not committed. -/
theorem SoundBut.goto_register (h : SoundBut requests database ns entity_type s j)
    (hdocument : (requests j).document = some (document, actor))
    (hj : document.name = entity_type → RegisterOk requests database ns entity_type (s.goto j phase) j) :
    Sound requests database ns entity_type (s.goto j phase) := by
  refine h.goto (fun _ _ hcall => ?_) (fun _ _ _ _ hcall => ?_)
    fun hconcerns => (callOk_of_document hdocument).mpr (hj ((concerns_of_document hdocument).mp hconcerns))
  · simp [Request.document, hcall] at hdocument
  · simp [Request.document, hcall] at hdocument

/-- Phases about which the invariant of a registration says nothing. -/
theorem registerOk_goto (hchosen : ∀ current version, phase ≠ .chosen current version)
    (hwritten : ∀ current version, phase ≠ .written current version)
    (hcached : ∀ current version, phase ≠ .cached current version) :
    RegisterOk requests database ns entity_type (s.goto j phase) j := by
  refine ⟨fun _ _ hj => ?_, fun _ _ hj => ?_, fun _ _ hj => ?_⟩ <;>
    rw [s.goto_phases_self] at hj
  · exact absurd hj (hchosen _ _)
  · exact absurd hj (hwritten _ _)
  · exact absurd hj (hcached _ _)

theorem Sound.finish_register (h : Sound requests database ns entity_type s)
    (hdocument : (requests j).document = some (document, actor)) (result : Except PelagoError Outcome) :
    Sound requests database ns entity_type (s.finish j result) :=
  (h.but j).goto_register hdocument fun _ => registerOk_goto nofun nofun nofun

theorem Sound.registerStep (h : Sound requests database ns entity_type s)
    (hdocument : (requests j).document = some (document, actor)) (hquiet : Quiet requests entity_type s j) :
    Sound requests database ns entity_type (s.registerStep database ns j (requests j) document actor (s.phases j)) := by
  have hok : document.name = entity_type → RegisterOk requests database ns entity_type s j := fun hname =>
    (callOk_of_document hdocument).mp (h.fresh.calls j ((concerns_of_document hdocument).mpr hname))
  cases hphase : s.phases j with
  | valid =>
    simp only [Cluster.registerStep]
    split
    · exact h.finish_register hdocument _
    · exact (h.but j).goto_register hdocument fun _ => registerOk_goto (by simp) (by simp) (by simp)
  | owned =>
    simp only [Cluster.registerStep]
    split
    · exact h.finish_register hdocument _
    · next current hcurrent =>
      have hchosen : ∀ version, Sound requests database ns entity_type (s.goto j (.chosen current version)) := by
        intro _
        refine (h.but j).goto_register hdocument fun hname => ⟨fun _ _ hj => ?_, fun _ _ hj => ?_,
          fun _ _ hj => ?_⟩ <;> rw [s.goto_phases_self] at hj <;> cases hj
        exact hname ▸ hcurrent
      unfold choose
      split
      · split
        · exact h.finish_register hdocument _
        · split
          · exact h.finish_register hdocument _
          · exact hchosen _
      · exact hchosen _
  | chosen current version =>
    have hq := fun hname => hquiet (by rw [hphase]; rfl) ((concerns_of_document hdocument).mpr hname)
    simp only [hphase] at hq
    have hbut : SoundBut requests database ns entity_type (s.register database ns document version) j :=
      ⟨h.named.register .., (h.fresh.but j).register fun hname =>
        ⟨(hq hname).1, (hok hname).chosen current version hphase, (hq hname).2.2⟩⟩
    refine hbut.goto_register hdocument fun hname => ⟨fun _ _ hj => ?_, fun _ _ hj => ?_,
      fun _ _ hj => ?_⟩ <;> rw [goto_phases_self] at hj <;> cases hj
    refine ⟨hname ▸ stored_write_version, fun server found hne hget => ?_⟩
    -- no other server may have the type in its cache
    have hserver := ((hq hname).2.1 server (contains_eq_true_iff _ |>.mpr ⟨found, hget⟩)).2
    exact absurd hserver hne
  | written current version =>
    have hnamed : Named requests database ns (s.insert (requests j).server { document with version }) :=
      h.named.of_rows rfl h.named.rows
    have hbut : SoundBut requests database ns entity_type (s.insert (requests j).server { document with version }) j :=
      ⟨hnamed, (h.fresh.but j).insert _ fun hname =>
        have hstored := ((hok hname).written current version hphase).1
        ⟨hstored.current, hstored.pointer⟩⟩
    refine hbut.goto_register hdocument fun hname => ⟨fun _ _ hj => ?_, fun _ _ hj => ?_, fun _ _ hj =>
      ?_⟩ <;> rw [goto_phases_self] at hj <;> cases hj
    obtain ⟨hstored, hcaches⟩ := (hok hname).written current version hphase
    refine ⟨hstored, fun server _ hget => ?_⟩
    by_cases hserver : server = (requests j).server
    · simp only [Cluster.goto, Cluster.insert, hserver, update_self, hname, get_set_self, Option.some.injEq] at hget
      subst hget
      exact UInt32.le_refl _
    · simp only [Cluster.goto, Cluster.insert, update_of_ne hserver] at hget
      exact hcaches _ _ hserver hget
  | cached current version =>
    have hbut : SoundBut requests database ns entity_type (s.report document.name version
        (jobs_after database ns s.rows { document with version } current)) j :=
      ⟨h.named.of_rows rfl h.named.rows, (h.fresh.but j).report _ fun hname =>
        (hok hname).cached current version hphase⟩
    exact hbut.goto_register hdocument fun _ => registerOk_goto (by simp) (by simp) (by simp)
  | idle | ready | missed | pointed | loaded | scanning | clearing | probed | cleared | done =>
    exact h

end Registrations

section Reads

variable {name : String}

omit [DecidableEq P] [DecidableEq J] in
theorem concerns_of_get (hcall : (requests j).call = .get name) :
    (requests j).call.concerns entity_type = true ↔ name = entity_type := by
  simp [hcall, Call.concerns]

omit [DecidableEq P] [DecidableEq J] in
theorem callOk_of_get (hcall : (requests j).call = .get name) :
    CallOk requests database ns entity_type s j ↔ GetOk database ns entity_type s j := by
  simp [CallOk, hcall]

theorem SoundBut.goto_get (h : SoundBut requests database ns entity_type s j) (hcall : (requests j).call = .get name)
    (hloaded : ∀ document, phase = .loaded document → document.name = name)
    (hj : name = entity_type → GetOk database ns entity_type (s.goto j phase) j) :
    Sound requests database ns entity_type (s.goto j phase) := by
  refine h.goto (fun _ _ hcall' => ?_) (fun _ _ _ _ hcall' => ?_)
    fun hconcerns => (callOk_of_get hcall).mpr (hj ((concerns_of_get hcall).mp hconcerns))
  · rw [hcall] at hcall'
    exact Call.get.inj hcall' ▸ hloaded _
  · rw [hcall] at hcall'
    cases hcall'

variable {result : Except PelagoError Outcome}

theorem getOk_done (hresult : Satisfied (s.need j) result) :
    GetOk database ns entity_type (s.finish j result) j := by
  have hphase : (s.finish j result).phases j = .done result := s.goto_phases_self j _
  refine ⟨fun hj => ?_, fun _ hj => ?_, fun _ hj => ?_, fun _ hj => ?_⟩ <;> rw [hphase] at hj <;> cases hj
  exact hresult

omit [DecidableEq P] [DecidableEq J] in
/-- What has been reported is what a read under way is held to. -/
theorem GetOk.satisfied (h : GetOk database ns entity_type s j) (hrunning : (s.phases j).running = true) (hfloor : (s.seen entity_type).floor ≠ 0 →
      ∃ document, result = .ok (.found (some document)) ∧ (s.seen entity_type).floor ≤ document.version)
    (hgone : (s.seen entity_type).gone = true → result = .ok (.found none)) : Satisfied (s.need j) result := by
  obtain ⟨hle, himp⟩ := h.need hrunning
  refine .inr ⟨fun hzero => ?_, fun hneed => hgone (himp hneed)⟩
  obtain ⟨document, hresult, hversion⟩ := hfloor fun hseen => hzero (UInt32.le_zero_iff.mp (hseen ▸ hle))
  exact ⟨document, hresult, UInt32.le_trans hle hversion⟩

/-- A read that has found the pointer returns the latest version, or fails when that is not stored. -/
theorem GetOk.satisfied_of_pointer (h : GetOk database ns entity_type s j)
    (hup : UpToDate database ns entity_type s) (hrunning : (s.phases j).running = true)
    (hpointer : s.rows.get (latestKey database ns entity_type) ≠ none)
    (hresult : ∀ version, Stored database ns entity_type s.rows version →
      ∃ document, result = .ok (.found (some document)) ∧ document.version = version) :
    Satisfied (s.need j) result := by
  refine h.satisfied hrunning (fun hzero => ?_) fun hgone => absurd (hup.gone hgone) hpointer
  obtain ⟨version, hstored, hle⟩ := hup.floor hzero
  obtain ⟨document, hfound, hversion⟩ := hresult _ hstored
  exact ⟨document, hfound, hversion ▸ hle⟩

theorem Sound.getStep (h : Sound requests database ns entity_type s) (hcall : (requests j).call = .get name) :
    Sound requests database ns entity_type (s.getStep database ns j (requests j) name (s.phases j)) := by
  have hok : name = entity_type → GetOk database ns entity_type s j := fun hname =>
    (callOk_of_get hcall).mp (h.fresh.calls j ((concerns_of_get hcall).mpr hname))
  have hfinish : ∀ result, (name = entity_type → Satisfied (s.need j) result) →
      Sound requests database ns entity_type (s.finish j result) := fun _ hresult =>
    (h.but j).goto_get hcall (by simp) fun hname => getOk_done (hresult hname)
  have hup := h.fresh.upToDate
  cases hphase : s.phases j with
  | missed =>
    have hrunning : (s.phases j).running = true := by rw [hphase]; rfl
    simp only [Cluster.getStep]
    split
    · next hnone =>
      refine hfinish _ fun hname => (hok hname).satisfied hrunning (fun hzero => ?_) fun _ => rfl
      obtain ⟨version, hstored, -⟩ := hup.floor hzero
      exact absurd (hname ▸ hnone) hstored.pointer
    · next bs hbs =>
      have hcurrent : current_version database ns s.rows name = decode_version bs := by
        rw [current_version, hbs]
      split
      · next e he =>
        refine hfinish _ fun hname => (hok hname).satisfied_of_pointer hup hrunning (by rw [← hname, hbs]; simp)
          fun _ hstored => ?_
        rw [hname, hstored.current, he] at hcurrent
        cases hcurrent
      · next version hversion =>
        refine (h.but j).goto_get hcall (by simp) fun hname => ⟨fun _ => (hok hname).need hrunning, fun _ hj => ?_,
          fun _ hj => ?_, fun _ hj => ?_⟩ <;> rw [s.goto_phases_self] at hj <;> cases hj
        subst hname
        exact ⟨hcurrent.trans hversion, by rw [Cluster.goto_rows, hbs]; simp⟩
    · next cell hraw hcell =>
      refine hfinish _ fun hname => (hok hname).satisfied_of_pointer hup hrunning (by rw [← hname, hcell]; simp)
        fun _ hstored => ?_
      have hcurrent := hstored.current
      rw [current_version, ← hname, hcell] at hcurrent
      cases cell with
      | raw bs => exact (hraw bs rfl).elim
      | schema | settings => cases hcurrent
  | pointed version =>
    have hrunning : (s.phases j).running = true := by rw [hphase]; rfl
    -- the row of the version exists whenever a version has been reported
    have hrow : name = entity_type → ∀ version', Stored database ns entity_type s.rows version' →
        ∃ document, s.rows.get (versionKey database ns name version) = some (.schema document) := by
      rintro rfl _ hstored
      obtain ⟨hcurrent, -⟩ := (hok rfl).pointed version hphase
      rw [hstored.current] at hcurrent
      exact Except.ok.inj hcurrent ▸ hstored.row
    simp only [Cluster.getStep]
    split
    · next hnone =>
      refine hfinish _ fun hname => (hok hname).satisfied_of_pointer hup hrunning
        ((hok hname).pointed version hphase).2 fun _ hstored => ?_
      obtain ⟨document, hdocument⟩ := hrow hname _ hstored
      rw [hnone] at hdocument
      cases hdocument
    · next cell hcell =>
      split
      · next e he =>
        refine hfinish _ fun hname => (hok hname).satisfied_of_pointer hup hrunning
          ((hok hname).pointed version hphase).2 fun _ hstored => ?_
        obtain ⟨document, hdocument⟩ := hrow hname _ hstored
        rw [hcell] at hdocument
        cases hdocument
        cases he
      · next document hdocument =>
        obtain rfl : cell = .schema document := by
          cases cell <;> simp [decode_cbor_schema] at hdocument
          rw [hdocument]
        obtain ⟨hdocname, hversion⟩ := h.named.rows _ _ _ hcell
        refine (h.but j).goto_get hcall (fun _ hj => ?_) fun hname =>
          ⟨fun _ => (hok hname).need hrunning, fun _ hj => ?_, fun _ hj => ?_, fun _ hj => ?_⟩
        · cases hj
          exact hdocname
        all_goals rw [s.goto_phases_self] at hj; cases hj
        exact hversion ▸ (hok hname).pointed version hphase
  | loaded document =>
    have hrunning : (s.phases j).running = true := by rw [hphase]; rfl
    have hdocname := h.named.loaded j _ _ hcall hphase
    have hbut : SoundBut requests database ns entity_type (s.insert (requests j).server document) j :=
      ⟨h.named.of_rows rfl h.named.rows, (h.fresh.but j).insert _ fun hname =>
        (hok (hdocname.symm.trans hname)).loaded document hphase⟩
    refine hbut.goto_get hcall (by simp) fun hname => getOk_done ?_
    obtain ⟨hcurrent, hpointer⟩ := (hok hname).loaded document hphase
    refine (hok hname).satisfied_of_pointer hup hrunning hpointer fun _ hstored => ⟨document, rfl, ?_⟩
    rw [hstored.current] at hcurrent
    exact (Except.ok.inj hcurrent).symm
  | idle | ready | valid | owned | chosen | written | cached | scanning | clearing | probed | cleared | done =>
    exact h

end Reads

section Drops

/-- A call that drops a type or the namespace. -/
def Call.drops : Call → Bool
  | .drop_entity_type _ _ _ => true
  | .drop_namespace _ => true
  | _ => false

omit [DecidableEq P] [DecidableEq J] in
theorem callOk_of_drops (hdrops : (requests j).call.drops = true) :
    CallOk requests database ns entity_type s j ↔ DropOk database ns entity_type s j := by
  unfold CallOk
  cases hcall : (requests j).call <;> simp [Call.drops, hcall] at hdrops ⊢

theorem SoundBut.goto_drop (h : SoundBut requests database ns entity_type s j)
    (hdrops : (requests j).call.drops = true) (hclearing : ∀ name other_keys async_allowed keys,
      (requests j).call = .drop_entity_type name other_keys async_allowed → phase = .clearing keys →
        ∀ k ∈ keys, TypeKey database ns name k)
    (hj : (requests j).call.concerns entity_type = true → phase = .cleared ∨ phase = .probed false →
      s.rows.get (latestKey database ns entity_type) = none) :
    Sound requests database ns entity_type (s.goto j phase) := by
  refine h.goto (fun _ _ hcall => ?_) hclearing fun hconcerns => (callOk_of_drops hdrops).mpr fun hphase => ?_
  · rw [hcall] at hdrops
    cases hdrops
  · rw [s.goto_phases_self] at hphase
    exact hj hconcerns hphase

omit [DecidableEq P] [DecidableEq J] in
/-- When a drop commits, no cache has the type. -/
theorem Quiet.caches_empty (h : Quiet requests entity_type s j) (hdrops : (requests j).call.drops = true)
    (hcommits : (s.phases j).commits = true) (hconcerns : (requests j).call.concerns entity_type = true) :
    (∀ i, i ≠ j → (requests i).call.concerns entity_type = true → (s.phases i).running = false) ∧
      ∀ server, (s.caches server).get entity_type = none := by
  obtain ⟨hothers, hcaches, -⟩ := h hcommits hconcerns
  refine ⟨hothers, fun server => ?_⟩
  cases hget : (s.caches server).get entity_type with
  | none => rfl
  | some document =>
    have hsome := (hcaches server (contains_eq_true_iff _ |>.mpr ⟨document, hget⟩)).1
    cases hcall : (requests j).call <;> simp [Request.document, Call.drops, hcall] at hsome hdrops

theorem latestKey_eq_none_of_typeRows {rows : Rows} (h : typeRows database ns rows entity_type = []) :
    rows.get (latestKey database ns entity_type) = none := by
  cases hget : rows.get (latestKey database ns entity_type) with
  | none => rfl
  | some cell =>
    have hmem : (latestKey database ns entity_type, cell) ∈ typeRows database ns rows entity_type :=
      mem_typeRows.mpr ⟨rows.get_eq_some_iff_mem.mp hget, typeKey_latestKey⟩
    rw [h] at hmem
    cases hmem

theorem latestKey_inRange : (of_namespace database ns).InRange (latestKey database ns entity_type) := by
  have hpart : (of_namespace database ns).InRange
      (((of_namespace database ns).subspace "_schema").pfx ++ (element entity_type ++ element "latest")) :=
    inRange_of_part _
  rw [latestKey_eq]
  exact hpart

theorem Sound.dropStep (h : Sound requests database ns entity_type s) {name : String} {other_keys : Nat}
    {async_allowed : Bool} (hcall : (requests j).call = .drop_entity_type name other_keys async_allowed)
    (hquiet : Quiet requests entity_type s j) :
    Sound requests database ns entity_type (s.dropStep database ns j name (s.phases j)) := by
  have hdrops : (requests j).call.drops = true := by rw [hcall]; rfl
  have hconcerns : (requests j).call.concerns entity_type = true ↔ name = entity_type := by
    simp [hcall, Call.concerns]
  cases hphase : s.phases j with
  | scanning =>
    simp only [Cluster.dropStep]
    split
    · next hnil =>
      refine (h.but j).goto_drop hdrops nofun fun hj _ => ?_
      have hempty : typeRows database ns s.rows name = [] := by simpa using hnil
      exact latestKey_eq_none_of_typeRows (hconcerns.mp hj ▸ hempty)
    · next batch hbatch =>
      refine (h.but j).goto_drop hdrops (fun _ _ _ _ hcall' hkeys k hk => ?_) nofun
      rw [hcall] at hcall'
      cases hcall'
      cases hkeys
      obtain ⟨row, hrow, rfl⟩ := List.mem_map.mp hk
      exact (mem_typeRows.mp (List.mem_of_mem_take hrow)).2
  | clearing keys =>
    have hrows : ∀ k, (keys.foldl clear s.rows).get k = none ∨
        (keys.foldl clear s.rows).get k = s.rows.get k := by
      intro k
      rw [get_clear_keys]
      split
      · exact .inl rfl
      · exact .inr rfl
    have hkeys := h.named.clearing j _ _ _ _ hcall hphase
    have hbut : SoundBut requests database ns entity_type
        (s.remove (fun name' => name = name') (keys.foldl clear s.rows)) j := by
      refine ⟨h.named.remove _ hrows, (h.fresh.but j).remove hrows (fun hne => ?_) fun hname => ?_⟩
      · exact agreeOn_clear_keys (of_decide_eq_false hne) hkeys
      · exact hquiet.caches_empty hdrops (by rw [hphase]; rfl) (hconcerns.mpr (of_decide_eq_true hname))
    exact hbut.goto_drop hdrops nofun nofun
  | cleared =>
    have hnone : name = entity_type → s.rows.get (latestKey database ns entity_type) = none := fun hname =>
      (callOk_of_drops hdrops).mp (h.fresh.calls j (hconcerns.mpr hname)) (.inl hphase)
    have hbut : SoundBut requests database ns entity_type (s.reportGone fun name' => name = name') j :=
      ⟨h.named.of_rows rfl h.named.rows, (h.fresh.but j).reportGone fun hname => hnone (of_decide_eq_true hname)⟩
    exact hbut.goto_drop hdrops nofun nofun
  | idle | ready | valid | owned | chosen | written | cached | missed | pointed | loaded | probed | done =>
    exact h

theorem Sound.dropNamespaceStep (h : Sound requests database ns entity_type s) {other_rows : Bool}
    (hcall : (requests j).call = .drop_namespace other_rows) (hquiet : Quiet requests entity_type s j) :
    Sound requests database ns entity_type (s.dropNamespaceStep database ns j (s.phases j)) := by
  have hdrops : (requests j).call.drops = true := by rw [hcall]; rfl
  have hconcerns : (requests j).call.concerns entity_type = true := by rw [hcall]; rfl
  have hok : DropOk database ns entity_type s j := (callOk_of_drops hdrops).mp (h.fresh.calls j hconcerns)
  cases hphase : s.phases j with
  | probed existed =>
    cases existed with
    | false =>
      exact (h.but j).goto_drop hdrops nofun fun _ _ => hok (.inr hphase)
    | true =>
      have hrows : ∀ k, (s.rows.clearRange (of_namespace database ns).pfx
          (of_namespace database ns).range_end).get k = none ∨
          (s.rows.clearRange (of_namespace database ns).pfx
          (of_namespace database ns).range_end).get k = s.rows.get k := by
        intro k
        rw [get_clearRange]
        split
        · exact .inl rfl
        · exact .inr rfl
      have hbut : SoundBut requests database ns entity_type (s.remove (fun _ => true)
          (s.rows.clearRange (of_namespace database ns).pfx
            (of_namespace database ns).range_end)) j :=
        ⟨h.named.remove _ hrows, (h.fresh.but j).remove hrows nofun fun _ =>
          hquiet.caches_empty hdrops (by rw [hphase]; rfl) hconcerns⟩
      refine hbut.goto_drop hdrops nofun fun _ _ => ?_
      change (s.rows.clearRange ..).get _ = none
      rw [get_clearRange]
      exact if_pos latestKey_inRange
  | cleared =>
    have hbut : SoundBut requests database ns entity_type (s.reportGone fun _ => true) j :=
      ⟨h.named.of_rows rfl h.named.rows, (h.fresh.but j).reportGone fun _ => hok (.inl hphase)⟩
    exact hbut.goto_drop hdrops nofun nofun
  | idle | ready | valid | owned | chosen | written | cached | missed | pointed | loaded | scanning | clearing | done =>
    exact h

end Drops

section Runs

omit [DecidableEq P] in
theorem Call.document_or (request : Request P) : (∃ document actor, request.document = some (document, actor)) ∨
    (∃ name, request.call = .get name) ∨ request.call.drops = true := by
  cases hcall : request.call <;> simp [Request.document, Call.drops, hcall]

section

variable (h : Sound requests database ns entity_type s)
include h

/-- A call whose transaction fails. -/
theorem Sound.fail (j : J) :
    Sound requests database ns entity_type (s.finish j (.error (.Internal "transaction failed"))) := by
  rcases Call.document_or (requests j) with ⟨document, _, hdocument⟩ | ⟨name, hcall⟩ | hdrops
  · exact h.finish_register hdocument _
  · exact (h.but j).goto_get hcall nofun fun _ => getOk_done (.inl rfl)
  · exact (h.but j).goto_drop hdrops nofun nofun

theorem Sound.start (j : J) : Sound requests database ns entity_type (s.start j (requests j).call) := by
  rcases Call.document_or (requests j) with ⟨document, _, hdocument⟩ | ⟨name, hcall⟩ | hdrops
  · have hstart : s.start j (requests j).call = s.goto j .ready := by
      cases hcall : (requests j).call <;> simp [Request.document, hcall] at hdocument <;> rfl
    rw [hstart]
    exact (h.but j).goto_register hdocument fun _ => registerOk_goto nofun nofun nofun
  · rw [hcall]
    have hbut : SoundBut requests database ns entity_type
        { s with need := update s.need j (s.seen name) } j := by
      refine ⟨h.named.of_rows rfl h.named.rows, (h.fresh.but j).later
        ⟨fun _ _ => rfl, fun _ _ => .inl, UInt32.le_refl _, id⟩ rfl (fun i hi => update_of_ne hi ..)
        ⟨h.fresh.upToDate.floor, h.fresh.upToDate.gone, h.fresh.upToDate.caches⟩⟩
    refine hbut.goto_get hcall nofun fun hname => ⟨fun _ => ?_, fun _ hj => ?_, fun _ hj => ?_, fun _ hj => ?_⟩
    · simp only [Cluster.goto, update_self, hname]
      exact ⟨UInt32.le_refl _, id⟩
    all_goals rw [goto_phases_self] at hj; cases hj
  · have hstart : s.start j (requests j).call = s.goto j .ready := by
      cases hcall : (requests j).call <;> simp [Call.drops, hcall] at hdrops <;> rfl
    rw [hstart]
    exact (h.but j).goto_drop hdrops nofun nofun

theorem Sound.begin (hphase : s.phases j = .ready) :
    Sound requests database ns entity_type (s.begin database ns is_alphanumeric j (requests j)) := by
  unfold Cluster.begin
  split
  · next document hcall =>
    have hdocument : (requests j).document = some (document, (requests j).site_id) := by simp [Request.document, hcall]
    split
    · exact h.finish_register hdocument _
    · exact (h.but j).goto_register hdocument fun _ => registerOk_goto nofun nofun nofun
  · next call hcall =>
    have hdocument : (requests j).document = some (call.document, call.origin_site_id) := by
      simp [Request.document, hcall]
    split
    · exact h.finish_register hdocument _
    · exact (h.but j).goto_register hdocument fun _ => registerOk_goto nofun nofun nofun
  · next name hcall =>
    have hok : name = entity_type → GetOk database ns entity_type s j := fun hname =>
      (callOk_of_get hcall).mp (h.fresh.calls j ((concerns_of_get hcall).mpr hname))
    have hrunning : (s.phases j).running = true := by rw [hphase]; rfl
    split
    · next document hget =>
      refine (h.but j).goto_get hcall nofun fun hname => getOk_done ?_
      obtain ⟨hle, hpointer⟩ := h.fresh.upToDate.caches _ _ (hname ▸ hget)
      exact (hok hname).satisfied hrunning (fun _ => ⟨document, rfl, hle⟩) fun hgone =>
        absurd (h.fresh.upToDate.gone hgone) hpointer
    · refine (h.but j).goto_get hcall nofun fun hname => ⟨fun _ => (hok hname).need hrunning, fun _ hj => ?_,
        fun _ hj => ?_, fun _ hj => ?_⟩ <;> rw [s.goto_phases_self] at hj <;> cases hj
  · next name other_keys async_allowed hcall =>
    have hdrops : (requests j).call.drops = true := by rw [hcall]; rfl
    split
    · split
      · exact (h.but j).goto_drop hdrops nofun nofun
      · exact (h.but j).goto_drop hdrops nofun nofun
    · exact (h.but j).goto_drop hdrops nofun nofun
  · next other_rows hcall =>
    have hdrops : (requests j).call.drops = true := by rw [hcall]; rfl
    refine (h.but j).goto_drop hdrops nofun fun _ hprobed => ?_
    simp only [reduceCtorEq, Phase.probed.injEq, Bool.or_eq_false_iff, Bool.not_eq_false', List.isEmpty_iff,
      false_or] at hprobed
    cases hget : s.rows.get (latestKey database ns entity_type) with
    | none => rfl
    | some cell =>
      have hmem : (latestKey database ns entity_type, cell) ∈ s.rows.range (of_namespace database ns).pfx
          (of_namespace database ns).range_end :=
        (s.rows.mem_range).mpr ⟨s.rows.get_eq_some_iff_mem.mp hget, latestKey_inRange⟩
      rw [hprobed.2] at hmem
      cases hmem

theorem Sound.advance (hquiet : Quiet requests entity_type s j) :
    Sound requests database ns entity_type (s.advance database ns is_alphanumeric j (requests j)) := by
  unfold Cluster.advance
  split
  · exact h.start j
  · next hphase => exact h.begin hphase
  · exact h
  · split
    · next document hcall => exact h.registerStep (by simp [Request.document, hcall]) hquiet
    · next call hcall => exact h.registerStep (by simp [Request.document, hcall]) hquiet
    · next name hcall => exact h.getStep hcall
    · next name other_keys async_allowed hcall => exact h.dropStep hcall hquiet
    · next other_rows hcall => exact h.dropNamespaceStep hcall hquiet

theorem Sound.step (turn : J × Cluster.Fate) (hquiet : Quiet requests entity_type s turn.1) :
    Sound requests database ns entity_type (s.step database ns is_alphanumeric requests turn) := by
  unfold Cluster.step
  split
  · exact h.advance hquiet
  · split
    · exact h.fail _
    · exact h
  · split
    · exact (h.advance hquiet).fail _
    · exact h

theorem Sound.exec {turns : List (J × Cluster.Fate)}
    (hrun : s.RunsWith database ns is_alphanumeric requests (Quiet requests entity_type) turns) :
    Sound requests database ns entity_type (s.exec database ns is_alphanumeric requests turns) := by
  induction turns generalizing s with
  | nil => exact h
  | cons turn _ ih => exact ih (h.step _ hrun.1) hrun.2

end

theorem sound_initial {rows : Rows}
    (hrows : ∀ name version document, rows.get (versionKey database ns name version) = some (.schema document) →
      document.name = name ∧ document.version = version) :
    Sound requests database ns entity_type (initial rows) := by
  refine ⟨⟨hrows, nofun, nofun⟩, ⟨absurd rfl, nofun, nofun⟩, fun i _ => ?_⟩
  rcases Call.document_or (requests i) with ⟨document, _, hdocument⟩ | ⟨name, hcall⟩ | hdrops
  · exact (callOk_of_document hdocument).mpr ⟨nofun, nofun, nofun⟩
  · exact (callOk_of_get hcall).mpr ⟨nofun, nofun, nofun, nofun⟩
  · exact (callOk_of_drops hdrops).mpr nofun

/-- Schema reads are not stale, as long as changes of the type are quiet: a call of `get_schema` that starts after
a registration has returned a version, with no drop since, returns a schema of at least that version, and
one that starts after a drop has returned, with no registration since, returns nothing. -/
theorem schema_reads_fresh {rows : Rows}
    (hrows : ∀ name version document, rows.get (versionKey database ns name version) = some (.schema document) →
      document.name = name ∧ document.version = version)
    {turns : List (J × Cluster.Fate)}
    (hrun : (initial rows).RunsWith database ns is_alphanumeric requests (Quiet requests entity_type) turns)
    (hcall : (requests j).call = .get entity_type) {result : Except PelagoError Outcome}
    (hdone : ((initial rows).exec database ns is_alphanumeric requests turns).phases j = .done result) :
    let need := ((initial rows).exec database ns is_alphanumeric requests turns).need j
    result = .error (.Internal "transaction failed") ∨
      (need.floor ≠ 0 → ∃ document, result = .ok (.found (some document)) ∧ need.floor ≤ document.version) ∧
      (need.gone = true → result = .ok (.found none)) := by
  have hinitial : Sound requests database ns entity_type (initial rows) := sound_initial hrows
  have h := hinitial.exec hrun
  exact ((callOk_of_get hcall).mp (h.fresh.calls j ((concerns_of_get hcall).mpr rfl))).done result hdone

instance [Fintype P] [Fintype J] (requests : J → Request P) (s : Cluster P J) (j : J) :
    Decidable (Quiet requests entity_type s j) := by
  unfold Quiet
  have (phase : Phase) : Decidable (match phase with | .chosen current version => current < version | _ => True) := by
    cases phase <;> infer_instance
  infer_instance

/-- A registration on one server and a read on another. -/
def registerThenGet (j : Bool) : Request Bool :=
  if j then ⟨true, "1", .get "Person"⟩ else ⟨false, "1", .register (plainSchema "Person")⟩

/-- The run in which the read follows the registration. -/
def registerThenGetRun : List (Bool × Cluster.Fate) := alone false ++ List.replicate 5 (true, .ok)

theorem read_after_registration_fresh :
    (((initial .empty).exec "shop" "main" Char.isAlphanum registerThenGet registerThenGetRun).need true).floor =
      1 ∧
    ∀ result, ((initial .empty).exec "shop" "main" Char.isAlphanum registerThenGet
        registerThenGetRun).phases true = .done result →
      let need := ((initial .empty).exec "shop" "main" Char.isAlphanum registerThenGet
        registerThenGetRun).need true
      result = .error (.Internal "transaction failed") ∨
        (need.floor ≠ 0 → ∃ document, result = .ok (.found (some document)) ∧ need.floor ≤ document.version) ∧
        (need.gone = true → result = .ok (.found none)) := by
  have hrun : (initial .empty).RunsWith "shop" "main" Char.isAlphanum registerThenGet
      (Quiet registerThenGet "Person") registerThenGetRun := by decide +kernel
  exact ⟨by decide +kernel, fun result hdone => schema_reads_fresh (by simp) hrun rfl hdone⟩

/-- Two registrations on one server, and reads on another before and after the second. -/
def updateBetweenReads (j : Fin 4) : Request Bool :=
  if j = 0 then ⟨false, "1", .register (plainSchema "Person")⟩
  else if j = 2 then ⟨false, "1", .register { plainSchema "Person" with created_by := "b" }⟩
  else ⟨true, "1", .get "Person"⟩

/-- A registration, a drop and a read on one server. -/
def dropBeforeRead (j : Fin 3) : Request Bool :=
  if j = 0 then ⟨false, "1", .register (plainSchema "Person")⟩
  else if j = 1 then ⟨false, "1", .drop_entity_type "Person" 0 true⟩
  else ⟨false, "1", .get "Person"⟩

/-- The second read returns version one after version two was returned, and the read after the drop returns
the dropped schema. -/
theorem cached_schema_served_stale :
    (let s := (initial .empty).exec "shop" "main" Char.isAlphanum updateBetweenReads
      (List.replicate 7 (0, .ok) ++ List.replicate 5 (1, .ok) ++ List.replicate 7 (2, .ok) ++ List.replicate 2 (3, .ok))
    (s.need 3).floor = 2 ∧
      s.phases 3 = .done (.ok (.found (some { plainSchema "Person" with version := 1 })))) ∧
    let s := (initial .empty).exec "shop" "main" Char.isAlphanum dropBeforeRead
      (List.replicate 7 (0, .ok) ++ List.replicate 6 (1, .ok) ++ List.replicate 2 (2, .ok))
    (s.need 2).gone = true ∧
      s.phases 2 = .done (.ok (.found (some { plainSchema "Person" with version := 1 }))) := by
  refine ⟨?_, ?_⟩
  · exact ⟨by decide +kernel, by decide +kernel⟩
  · exact ⟨by decide +kernel, by decide +kernel⟩

end Runs

end pelago_storage.schema
