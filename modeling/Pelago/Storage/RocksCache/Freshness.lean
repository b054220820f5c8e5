import Mathlib.Data.List.Nodup
import Pelago.Storage.Consumer.Delivery
import Pelago.Storage.RocksCache.Projection
import Pelago.Storage.RocksCache.Projector

open bytes kv pelago_core List

namespace pelago_storage.rocks_cache

open cdc consumer Option
open Versionstamp (zero)

/-- A server whose projectors share a cache. Of the database only the logs and the
checkpoints matter here. `log` holds the log of each namespace, `version` is the
latest commit version, and `applied` holds what the projectors have applied. -/
structure Server where
  rows : OrdMap Bytes Cell
  cache : RocksCacheStore
  projectors : List CdcProjector
  log : String → String → OrdMap Versionstamp CdcEntry
  version : Nat
  applied : List (String × String × Versionstamp)

/-- An entry of the log of a namespace. -/
structure Change where
  database : String
  ns : String
  vs : Versionstamp
  entry : CdcEntry

inductive ServerEvent where
  | commit (version : Nat) (changes : List Change)
  | project (i : Nat) (elapsed : Bool) (now_ms : Nat)
  | restart

namespace Server

/-- An entry committed at the current version goes to the end of its log. -/
def append (s : Server) (change : Change) : Server :=
  if versionstamp_tx_version change.vs = s.version ∧
      ∀ row ∈ (s.log change.database change.ns).rows, row.1 < change.vs then
    { s with
      rows := s.rows.set (entry_key change.database change.ns change.vs) (.cdc change.entry)
      log := fun database ns =>
        if database = change.database ∧ ns = change.ns then (s.log database ns).set change.vs change.entry
        else s.log database ns }
  else s

/-- A step. All that has one commit version becomes visible at once; commit
versions grow and are positive 64-bit integers. A projector takes its turn; or all
of them start anew from their checkpoints. -/
def step (s : Server) : ServerEvent → Server
  | .commit version changes =>
    if s.version < version ∧ version < 2 ^ 63 then changes.foldl append { s with version := version } else s
  | .project i elapsed now_ms =>
    match s.projectors[i]? with
    | none => s
    | some projector =>
      match projector.project_batch s.cache s.rows elapsed now_ms, poll_batch projector.consumer s.rows with
      | .ok (projector', cache, rows), .ok entries =>
        { s with
          rows := rows
          cache := cache
          projectors := s.projectors.set i projector'
          applied := s.applied ++ entries.map fun (vs, _) =>
            (projector.consumer.config.database, projector.consumer.config.ns, vs) }
      | _, _ => s
  | .restart =>
    { s with
      projectors := s.projectors.filterMap fun projector =>
        (CdcProjector.new s.rows projector.consumer.config).toOption }

def exec (s : Server) (events : List ServerEvent) : Server := events.foldl step s

/-- The server starts with an empty cache, no checkpoint, and a projector for each
of its scopes. -/
structure Initial (s : Server) : Prop where
  holds : ∀ database ns, HoldsLog database ns s.rows (s.log database ns)
  versions : ∀ database ns, ∀ row ∈ (s.log database ns).rows,
    0 < versionstamp_tx_version row.1 ∧ versionstamp_tx_version row.1 ≤ s.version
  version_lt : s.version < 2 ^ 63
  cache : s.cache = RocksCacheStore.empty
  fresh : ∀ projector ∈ s.projectors, projector.consumer.hwm = zero ∧
    s.rows.get (checkpoint_key projector.consumer.config) = none
  scopes : s.projectors.Pairwise fun p q =>
    ¬ (p.consumer.config.database = q.consumer.config.database ∧ p.consumer.config.ns = q.consumer.config.ns)
  applied : s.applied = []

/-- A batch of a projector is in order when it ends with a whole commit version and
no other namespace has an entry up to that version that has not been applied; a
restart is in order when the checkpoints are up to date. -/
def InOrder (s : Server) : ServerEvent → Prop
  | .commit .. => True
  | .project i _ _ =>
    ∀ projector, s.projectors[i]? = some projector →
      ∀ entries, poll_batch projector.consumer s.rows = .ok entries →
        ∀ hwm entry, entries.getLast? = some (hwm, entry) →
          (∀ row ∈ (s.log projector.consumer.config.database projector.consumer.config.ns).rows,
            versionstamp_tx_version row.1 = versionstamp_tx_version hwm → row.1 ≤ hwm) ∧
          ∀ database ns, ¬ (database = projector.consumer.config.database ∧ ns = projector.consumer.config.ns) →
            ∀ row ∈ (s.log database ns).rows, versionstamp_tx_version row.1 ≤ versionstamp_tx_version hwm →
              (database, ns, row.1) ∈ s.applied
  | .restart => ∀ projector ∈ s.projectors,
      load_hwm s.rows projector.consumer.config = .ok projector.consumer.hwm

/-- Every step of the run is in order. -/
def RunsInOrder (s : Server) : List ServerEvent → Prop
  | [] => True
  | event :: events => s.InOrder event ∧ (s.step event).RunsInOrder events

def scope (reader : CdcConsumer) : String × String := (reader.config.database, reader.config.ns)

def readers (s : Server) : List CdcConsumer := s.projectors.map CdcProjector.consumer

/-- What the cache knows of a namespace whose log is read up to the consumer's mark. -/
structure Follows (s : Server) (reader : CdcConsumer) : Prop where
  held : Held (s.log reader.config.database reader.config.ns) reader.hwm
  whole : ∀ row ∈ (s.log reader.config.database reader.config.ns).rows,
    versionstamp_tx_version row.1 ≤ versionstamp_tx_version reader.hwm → row.1 ≤ reader.hwm
  consumed : ∀ row ∈ (s.log reader.config.database reader.config.ns).rows, row.1 ≤ reader.hwm →
    (reader.config.database, reader.config.ns, row.1) ∈ s.applied
  values : ∀ entity_type node_id, Plain reader.config.database → Plain reader.config.ns → Plain entity_type →
    Plain node_id →
    (s.cache.get_node reader.config.database reader.config.ns entity_type node_id).map valueOf =
      (((s.log reader.config.database reader.config.ns).upTo (cursorOf reader.hwm)).flatMap
        fun row => row.2.operations).foldl (project entity_type node_id) none

/-- What holds throughout a run in order. The mark of the cache never passes an
entry that has not been applied. -/
structure Sound (s : Server) : Prop where
  holds : ∀ database ns, HoldsLog database ns s.rows (s.log database ns)
  versions : ∀ database ns, ∀ row ∈ (s.log database ns).rows,
    0 < versionstamp_tx_version row.1 ∧ versionstamp_tx_version row.1 ≤ s.version
  version_lt : s.version < 2 ^ 63
  scopes : (s.readers.map scope).Nodup
  follows : ∀ reader ∈ s.readers, s.Follows reader
  mark_le : versionstamp_tx_version s.cache.get_hwm ≤ s.version
  mark : ∀ database ns, ∀ row ∈ (s.log database ns).rows,
    versionstamp_tx_version row.1 ≤ versionstamp_tx_version s.cache.get_hwm → (database, ns, row.1) ∈ s.applied
  applied : ∀ database ns vs, (database, ns, vs) ∈ s.applied →
    ∃ reader ∈ s.readers, scope reader = (database, ns) ∧ vs ≤ reader.hwm
  unread : ∀ database ns, (∀ reader ∈ s.readers, scope reader ≠ (database, ns)) → ∀ entity_type node_id,
    Plain database → Plain ns → Plain entity_type → Plain node_id →
    s.cache.get_node database ns entity_type node_id = none

variable {s : Server}

theorem tx_version_zero : versionstamp_tx_version zero = 0 := by decide +kernel

theorem Initial.sound (h : s.Initial) : s.Sound where
  holds := h.holds
  versions := h.versions
  version_lt := h.version_lt
  scopes := by
    rw [readers, List.map_map, Nodup, pairwise_map]
    exact h.scopes.imp fun hne heq => hne (by simpa [scope] using heq)
  follows reader hreader := by
    obtain ⟨projector, hprojector, rfl⟩ := mem_map.mp hreader
    have hzero := (h.fresh _ hprojector).1
    have hnone (row : Versionstamp × CdcEntry)
        (hrow : row ∈ (s.log projector.consumer.config.database projector.consumer.config.ns).rows) :
        ¬ row.1 ≤ projector.consumer.hwm := by
      intro hle
      rw [hzero] at hle
      have hversion := versionstamp_tx_version_mono hle
      exact absurd (h.versions _ _ _ hrow).1 (not_lt.mpr hversion)
    refine ⟨.inl hzero, fun row hrow hle => ?_, fun row hrow hle => absurd hle (hnone _ hrow), ?_⟩
    · rw [hzero] at hle
      exact absurd (h.versions _ _ _ hrow).1 (not_lt.mpr hle)
    · intro _ _ _ _ _ _
      rw [h.cache, hzero, cursorOf_zero, OrdMap.upTo_bot]
      rfl
  mark_le := by
    rw [h.cache]
    exact tx_version_zero.le.trans (Nat.zero_le _)
  mark database ns row hrow hle := by
    rw [h.cache] at hle
    exact absurd (h.versions _ _ _ hrow).1 (not_lt.mpr (hle.trans tx_version_zero.le))
  applied database ns vs hmem := by
    rw [h.applied] at hmem
    cases hmem
  unread database ns _ entity_type node_id _ _ _ _ := by
    rw [h.cache]
    rfl

theorem Sound.ne_zero (h : s.Sound) {database ns : String} {row : Versionstamp × CdcEntry}
    (hrow : row ∈ (s.log database ns).rows) : row.1 ≠ zero := by
  intro hzero
  have hpos := (h.versions _ _ _ hrow).1
  rw [hzero] at hpos
  exact absurd hpos (lt_irrefl 0)

variable {readers : List CdcConsumer} {reader reader' : CdcConsumer}

/-- The readers after one of them has moved on. -/
theorem mem_set_readers (hscopes : (readers.map scope).Nodup) {i : Nat}
    {other : CdcConsumer} (hi : readers[i]? = some reader) (hother : other ∈ readers.set i reader') :
    other = reader' ∨ other ∈ readers ∧ scope other ≠ scope reader := by
  obtain ⟨j, hj⟩ := mem_iff_getElem?.mp hother
  rw [getElem?_set] at hj
  split at hj
  · split at hj
    · exact .inl (some.inj hj).symm
    · cases hj
  · next hne =>
    refine .inr ⟨mem_of_getElem? hj, fun hscope => hne ?_⟩
    obtain ⟨hlt, -⟩ := List.getElem?_eq_some_iff.mp hi
    refine (getElem?_inj (by simpa using hlt) hscopes).mp ?_
    rw [getElem?_map, getElem?_map, hi, hj, map_some, map_some, hscope]

theorem map_scope_set {i : Nat} (hi : readers[i]? = some reader) (hscope : scope reader' = scope reader) :
    (readers.set i reader').map scope = readers.map scope := by
  refine ext_getElem? fun j => ?_
  rw [getElem?_map, getElem?_map, getElem?_set]
  obtain ⟨hlt, -⟩ := List.getElem?_eq_some_iff.mp hi
  by_cases hj : i = j
  · subst hj
    rw [if_pos rfl, if_pos hlt, hi, map_some, map_some, hscope]
  · rw [if_neg hj]

theorem mem_set_of_mem {i : Nat} {other : CdcConsumer} (reader' : CdcConsumer)
    (hi : readers[i]? = some reader) (hother : other ∈ readers) :
    other ∈ readers.set i reader' ∨ other = reader := by
  obtain ⟨j, hj⟩ := mem_iff_getElem?.mp hother
  by_cases hij : i = j
  · subst hij
    rw [hi] at hj
    exact .inr (some.inj hj).symm
  · refine .inl (mem_iff_getElem?.mpr ⟨j, ?_⟩)
    rw [getElem?_set, if_neg hij, hj]

/-- Entries of a later version change nothing that has been read. -/
theorem Follows.append (h : s.Follows reader) {rows : OrdMap Bytes Cell}
    {log : String → String → OrdMap Versionstamp CdcEntry}
    (hextends : (log reader.config.database reader.config.ns).Extends (s.log reader.config.database reader.config.ns))
    (hnew : ∀ row ∈ (log reader.config.database reader.config.ns).rows,
      row ∈ (s.log reader.config.database reader.config.ns).rows ∨
        versionstamp_tx_version reader.hwm < versionstamp_tx_version row.1) :
    Follows { s with rows := rows, log := log } reader where
  held := h.held.mono hextends
  whole row hrow hle := by
    obtain hrow | hlt := hnew _ hrow
    · exact h.whole _ hrow hle
    · exact absurd hle (not_le.mpr hlt)
  consumed row hrow hle := by
    obtain hrow | hlt := hnew _ hrow
    · exact h.consumed _ hrow hle
    · exact absurd (versionstamp_tx_version_mono hle) (not_le.mpr hlt)
  values entity_type node_id hdatabase hns htype hid := by
    rw [hextends.upTo_eq h.held.reached]
    exact h.values _ _ hdatabase hns htype hid

/-- An entry of a log is an old one or has the version of the commit. -/
theorem mem_log_append (s : Server) (change : Change) {database ns : String} {row : Versionstamp × CdcEntry}
    (hrow : row ∈ ((s.append change).log database ns).rows) :
    row ∈ (s.log database ns).rows ∨ versionstamp_tx_version row.1 = s.version := by
  rw [append] at hrow
  split_ifs at hrow with hguard
  case neg => exact .inl hrow
  dsimp only at hrow
  split_ifs at hrow with hscope
  case neg => exact .inl hrow
  obtain ⟨rfl, rfl⟩ := hscope
  rw [OrdMap.rows_set_of_lt _ hguard.2] at hrow
  obtain hrow | hrow := mem_append.mp hrow
  · exact .inl hrow
  · rw [mem_singleton.mp hrow]
    exact .inr hguard.1

theorem Sound.append (h : s.Sound) (hbehind : ∀ reader ∈ s.readers, versionstamp_tx_version reader.hwm < s.version)
    (hmark : versionstamp_tx_version s.cache.get_hwm < s.version) (hpos : 0 < s.version) (change : Change) :
    (s.append change).Sound := by
  have hnew := @mem_log_append s change
  rw [Server.append] at hnew ⊢
  split_ifs at hnew ⊢ with hguard
  case neg => exact h
  have hextends (database ns : String) :
      (if database = change.database ∧ ns = change.ns then (s.log database ns).set change.vs change.entry
        else s.log database ns).Extends (s.log database ns) := by
    split_ifs with hscope
    · obtain ⟨rfl, rfl⟩ := hscope
      exact OrdMap.extends_set _ hguard.2
    · exact OrdMap.Extends.refl _
  refine { h with
    holds := fun _ ns => ?_
    versions := fun _ ns row hrow => ?_
    follows := fun _ hreader => ?_
    mark := fun _ ns row hrow hle => ?_ }
  · dsimp only
    split_ifs with hscope
    · obtain ⟨rfl, rfl⟩ := hscope
      exact (h.holds _ _).append _
    · intro rest c
      rw [← h.holds _ ns _ c, OrdMap.get_set_of_ne]
      intro heq
      obtain ⟨hdatabase, hns, -⟩ := subspace_append_inj heq
      exact hscope ⟨hdatabase, hns⟩
  · obtain hrow | hrow := hnew hrow
    · exact h.versions _ ns _ hrow
    · rw [hrow]
      exact ⟨hpos, le_rfl⟩
  · refine (h.follows _ hreader).append (hextends ..) fun _ hrow => ?_
    exact (hnew hrow).imp id fun hrow => (hbehind _ hreader).trans_eq hrow.symm
  · obtain hrow | hrow := hnew hrow
    · exact h.mark _ ns _ hrow hle
    · exact absurd (hrow ▸ hle) (not_le.mpr hmark)

theorem Sound.tx_hwm_le (h : s.Sound) (hreader : reader ∈ s.readers) :
    versionstamp_tx_version reader.hwm ≤ s.version := by
  obtain hzero | ⟨e, he⟩ := (h.follows _ hreader).held
  · rw [hzero]
    exact Nat.zero_le _
  · exact (h.versions _ _ _ he).2

theorem append_readers (s : Server) (change : Change) : (s.append change).readers = s.readers ∧
    (s.append change).cache = s.cache ∧ (s.append change).version = s.version := by
  rw [append]
  split_ifs <;> exact ⟨rfl, rfl, rfl⟩

theorem Sound.commit (h : s.Sound) (version : Nat) (changes : List Change) :
    (s.step (.commit version changes)).Sound := by
  rw [step]
  split_ifs with hguard
  case neg => exact h
  obtain ⟨hlt, hbound⟩ := hguard
  have hstart : Sound { s with version := version } :=
    { h with
      versions := fun _ _ row hrow => ⟨(h.versions _ _ _ hrow).1, (h.versions _ _ _ hrow).2.trans hlt.le⟩
      version_lt := hbound
      follows := fun _ hreader => { h.follows _ hreader with }
      mark_le := h.mark_le.trans hlt.le }
  have hbehind : ∀ reader ∈ s.readers, versionstamp_tx_version reader.hwm < version :=
    fun _ hreader => (h.tx_hwm_le hreader).trans_lt hlt
  have hmark : versionstamp_tx_version s.cache.get_hwm < version := h.mark_le.trans_lt hlt
  -- the entries of the commit go to their logs one after the other
  have hfold : ∀ (changes : List Change) (t : Server), t.Sound → t.readers = s.readers → t.cache = s.cache →
      t.version = version → (changes.foldl .append t).Sound := by
    intro changes
    induction changes with
    | nil => exact fun t ht _ _ _ => ht
    | cons change _ ih =>
      intro t ht hreaders hcache hversion
      obtain ⟨hreaders', hcache', hversion'⟩ := t.append_readers _
      refine ih _ (ht.append ?_ ?_ ?_ _) (hreaders'.trans hreaders) (hcache'.trans hcache)
        (hversion'.trans hversion)
      · rwa [hreaders, hversion]
      · rwa [hcache, hversion]
      · rw [hversion]
        exact (Nat.zero_le _).trans_lt hlt
  exact hfold _ _ hstart rfl rfl rfl

/-- Of the projectors only their consumers matter. -/
theorem Sound.with_projectors (h : s.Sound) {projectors : List CdcProjector}
    (hreaders : projectors.map CdcProjector.consumer = s.readers) : Sound { s with projectors := projectors } := by
  have hreaders : readers { s with projectors := projectors } = s.readers := hreaders
  exact { h with
    scopes := by
      rw [hreaders]
      exact h.scopes
    follows := fun _ hreader => by
      rw [hreaders] at hreader
      exact { h.follows _ hreader with }
    applied := fun _ ns vs hmem => by
      rw [hreaders]
      exact h.applied _ ns vs hmem
    unread := fun _ ns hscopes => by
      rw [hreaders] at hscopes
      exact h.unread _ ns hscopes }

theorem Sound.restart (h : s.Sound) (horder : s.InOrder .restart) : (s.step .restart).Sound := by
  have hreaders : (s.step .restart).readers = s.readers := by
    have hnew : ∀ projector ∈ s.projectors, (CdcProjector.new s.rows projector.consumer.config).toOption =
        some ⟨projector.consumer, 1, MAX_ADAPTIVE_DRAIN_WINDOWS⟩ := by
      intro _ hprojector
      rw [CdcProjector.new, consumer.new, horder _ hprojector]
      rfl
    rw [readers, step]
    rw [filterMap_congr hnew, map_filterMap]
    exact congrFun filterMap_eq_map _
  exact h.with_projectors hreaders

/-- A poll returns the entries after the consumer's mark. -/
theorem Sound.poll_eq (h : s.Sound) (hreader : reader ∈ s.readers) :
    poll_batch reader s.rows = .ok (((s.log reader.config.database reader.config.ns).after
      (cursorOf reader.hwm)).take reader.config.batch_size) := by
  refine poll_batch_eq (h.holds _ _) (fun row hrow => ⟨?_, h.ne_zero hrow⟩) ?_
  · exact regular_of_tx_version_lt ((h.versions _ _ _ hrow).2.trans_lt h.version_lt)
  · exact regular_of_tx_version_lt ((h.tx_hwm_le hreader).trans_lt h.version_lt)

section Advance

variable {i : Nat} {reader : CdcConsumer} {front back : List (Versionstamp × CdcEntry)} {hwm : Versionstamp}
  {last : CdcEntry}

/-- Up to the last entry of a batch there is what was read before and the batch. -/
theorem upTo_hwm {log : OrdMap Versionstamp CdcEntry} {c : WithBot Versionstamp}
    (hafter : log.after c = front ++ (hwm, last) :: back) :
    log.upTo hwm = log.upTo c ++ (front ++ [(hwm, last)]) := by
  have hmem : (hwm, last) ∈ log.after c := by simp [hafter]
  have hbetween := OrdMap.between_of_after_eq hafter
  rw [← hbetween, OrdMap.upTo_append_between _ (OrdMap.mem_after.mp hmem).2.le]

theorem Sound.follows_reader (h : s.Sound) (hreader : reader ∈ s.readers)
    (hafter : (s.log reader.config.database reader.config.ns).after (cursorOf reader.hwm) =
      front ++ (hwm, last) :: back)
    (hwhole : ∀ row ∈ (s.log reader.config.database reader.config.ns).rows,
      versionstamp_tx_version row.1 = versionstamp_tx_version hwm → row.1 ≤ hwm)
    (rows : OrdMap Bytes Cell) (projectors : List CdcProjector) (n now_ms : Nat) :
    Follows { s with
        rows := rows
        cache := s.cache.apply_cdc_operations reader.config.database reader.config.ns
          ((replicate (n + 1) (front ++ [(hwm, last)])).flatten.flatMap fun (_, entry) => entry.operations)
          last.timestamp hwm now_ms
        projectors := projectors
        applied := s.applied ++ (front ++ [(hwm, last)]).map fun (vs, _) =>
          (reader.config.database, reader.config.ns, vs) } ⟨reader.config, hwm⟩ := by
  have hfollows := h.follows _ hreader
  have hupTo := upTo_hwm hafter
  have hin : (hwm, last) ∈ (s.log reader.config.database reader.config.ns).after (cursorOf reader.hwm) := by
    simp [hafter]
  have hmem := (OrdMap.mem_after.mp hin).1
  have hne : hwm ≠ zero := h.ne_zero hmem
  refine ⟨.inr ⟨last, hmem⟩, fun row hrow hle => ?_, fun row hrow hle => ?_, ?_⟩
  · obtain hlt | heq := hle.lt_or_eq
    · exact (lt_of_tx_version_lt hlt).le
    · exact hwhole _ hrow heq
  · have hin : row ∈ (s.log reader.config.database reader.config.ns).upTo hwm :=
      OrdMap.mem_upTo.mpr ⟨hrow, WithBot.coe_le_coe.mpr hle⟩
    rw [hupTo] at hin
    obtain hold | hnew := mem_append.mp hin
    · refine mem_append_left _ (hfollows.consumed _ hrow ?_)
      have hle := (OrdMap.mem_upTo.mp hold).2
      rwa [← cursorOf_of_ne (h.ne_zero hrow), cursorOf_le_iff] at hle
    · exact mem_append_right _ (mem_map.mpr ⟨row, hnew, rfl⟩)
  · intro _ _ hdatabase hns htype hid
    rw [RocksCacheStore.get_node_apply_cdc_operations hdatabase hns htype hid, if_pos ⟨rfl, rfl⟩,
      hfollows.values _ _ hdatabase hns htype hid, cursorOf_of_ne hne, hupTo, flatMap_append,
      foldl_append]
    exact foldl_project_replicate ..

/-- Nothing changes for the readers of other namespaces. -/
theorem Follows.other {other : CdcConsumer} (h : s.Follows other) (hscope : scope other ≠ scope reader)
    (rows : OrdMap Bytes Cell) (projectors : List CdcProjector) (operations : List CdcOperation) (timestamp : Int)
    (now_ms : Nat) (entries : List (String × String × Versionstamp)) :
    Follows { s with
      rows := rows
      cache := s.cache.apply_cdc_operations reader.config.database reader.config.ns operations timestamp hwm now_ms
      projectors := projectors
      applied := s.applied ++ entries } other :=
  { h with
    consumed := fun row hrow hle => mem_append_left _ (h.consumed _ hrow hle)
    values := fun _ _ hdatabase hns htype hid => by
      rw [RocksCacheStore.get_node_apply_cdc_operations hdatabase hns htype hid, if_neg]
      · exact h.values _ _ hdatabase hns htype hid
      · rintro ⟨hd, hn⟩
        exact hscope (Prod.ext hd.symm hn.symm) }

/-- A batch in order keeps the mark behind what has been applied. -/
theorem Sound.advance (h : s.Sound) (hi : s.readers[i]? = some reader)
    (hafter : (s.log reader.config.database reader.config.ns).after (cursorOf reader.hwm) =
      front ++ (hwm, last) :: back)
    (hwhole : ∀ row ∈ (s.log reader.config.database reader.config.ns).rows,
      versionstamp_tx_version row.1 = versionstamp_tx_version hwm → row.1 ≤ hwm)
    (hothers : ∀ database ns, ¬ (database = reader.config.database ∧ ns = reader.config.ns) →
      ∀ row ∈ (s.log database ns).rows, versionstamp_tx_version row.1 ≤ versionstamp_tx_version hwm →
        (database, ns, row.1) ∈ s.applied)
    {rows : OrdMap Bytes Cell} (hrows : ∀ database ns, HoldsLog database ns rows (s.log database ns))
    {projectors : List CdcProjector}
    (hprojectors : projectors.map CdcProjector.consumer = s.readers.set i ⟨reader.config, hwm⟩) (n now_ms : Nat) :
    Sound { s with
      rows := rows
      cache := s.cache.apply_cdc_operations reader.config.database reader.config.ns
        ((replicate (n + 1) (front ++ [(hwm, last)])).flatten.flatMap fun (_, entry) => entry.operations)
        last.timestamp hwm now_ms
      projectors := projectors
      applied := s.applied ++ (front ++ [(hwm, last)]).map fun (vs, _) =>
        (reader.config.database, reader.config.ns, vs) } := by
  have hreader : reader ∈ s.readers := mem_of_getElem? hi
  have hself := h.follows_reader hreader hafter hwhole rows projectors n now_ms
  have hin : (hwm, last) ∈ (s.log reader.config.database reader.config.ns).after (cursorOf reader.hwm) := by
    simp [hafter]
  have hmem := (OrdMap.mem_after.mp hin).1
  have hscopes : (s.readers.set i ⟨reader.config, hwm⟩).map scope = s.readers.map scope := map_scope_set hi rfl
  have hset : (⟨reader.config, hwm⟩ : CdcConsumer) ∈ s.readers.set i ⟨reader.config, hwm⟩ := by
    obtain ⟨hlt, -⟩ := List.getElem?_eq_some_iff.mp hi
    exact mem_set hlt _
  refine
    { holds := hrows
      versions := h.versions
      version_lt := h.version_lt
      scopes := ?_
      follows := fun _ hother => ?_
      mark_le := (h.versions _ _ _ hmem).2
      mark := fun database ns row hrow hle => ?_
      applied := fun database ns vs hvs => ?_
      unread := fun database ns hscopes' _ _ hdatabase hns htype hid => ?_ }
  · rw [readers, hprojectors, hscopes]
    exact h.scopes
  · rw [readers, hprojectors] at hother
    obtain rfl | ⟨hother, hscope⟩ := mem_set_readers h.scopes hi hother
    · exact hself
    · exact (h.follows _ hother).other hscope ..
  · by_cases hscope : database = reader.config.database ∧ ns = reader.config.ns
    · obtain ⟨rfl, rfl⟩ := hscope
      exact hself.consumed _ hrow (hself.whole _ hrow hle)
    · exact mem_append_left _ (hothers _ ns hscope _ hrow hle)
  · rw [readers, hprojectors]
    obtain hold | hnew := mem_append.mp hvs
    · obtain ⟨other, hother, hscope, hle⟩ := h.applied _ ns vs hold
      obtain hother | rfl := mem_set_of_mem _ hi hother
      · exact ⟨other, hother, hscope, hle⟩
      · refine ⟨_, hset, hscope, hle.trans ?_⟩
        have hlt := (OrdMap.mem_after.mp hin).2
        rw [← cursorOf_of_ne (h.ne_zero hmem)] at hlt
        exact cursorOf_le_iff.mp hlt.le
    · obtain ⟨row, hrow, heq⟩ := mem_map.mp hnew
      cases heq
      have hupTo : row ∈ (s.log reader.config.database reader.config.ns).upTo hwm := by
        rw [upTo_hwm hafter]
        exact mem_append_right _ hrow
      exact ⟨_, hset, rfl, WithBot.coe_le_coe.mp (OrdMap.mem_upTo.mp hupTo).2⟩
  · have hfree : ∀ other ∈ s.readers, scope other ≠ (database, ns) := by
      intro _ hother heq
      have hmem : (database, ns) ∈ (s.readers.set i ⟨reader.config, hwm⟩).map scope := by
        rw [hscopes, ← heq]
        exact mem_map_of_mem hother
      obtain ⟨other', hother', heq'⟩ := mem_map.mp hmem
      rw [readers, hprojectors] at hscopes'
      exact hscopes' _ hother' heq'
    rw [← map_eq_none_iff, RocksCacheStore.get_node_apply_cdc_operations hdatabase hns htype hid,
      if_neg fun heq => hfree _ hreader (Prod.ext heq.1 heq.2),
      h.unread _ ns hfree _ _ hdatabase hns htype hid]
    rfl

theorem Sound.project (h : s.Sound) {elapsed : Bool} {now_ms : Nat} (horder : s.InOrder (.project i elapsed now_ms)) :
    (s.step (.project i elapsed now_ms)).Sound := by
  rw [step]
  split
  case h_1 => exact h
  next projector hprojector =>
  have hi : s.readers[i]? = some projector.consumer := by
    rw [readers, getElem?_map, hprojector]
    rfl
  have hreader : projector.consumer ∈ s.readers := mem_of_getElem? hi
  have hpoll := h.poll_eq hreader
  generalize hentries : ((s.log projector.consumer.config.database projector.consumer.config.ns).after
    (cursorOf projector.consumer.hwm)).take projector.consumer.config.batch_size = entries at hpoll
  obtain rfl | ⟨front, last, rfl⟩ := eq_nil_or_concat entries
  · obtain ⟨_, hbatch⟩ := CdcProjector.project_batch_nil hpoll ..
    rw [hbatch, hpoll]
    dsimp only
    rw [map_nil, append_nil]
    refine h.with_projectors ?_
    rw [map_set]
    obtain ⟨hlt, heq⟩ := List.getElem?_eq_some_iff.mp hi
    rw [← heq]
    exact set_getElem_self _
  · obtain ⟨hwm, last⟩ := last
    rw [concat_eq_append] at hpoll hentries
    obtain ⟨n, _, hbatch⟩ := CdcProjector.project_batch_eq hpoll ..
    obtain ⟨hwhole, hothers⟩ := horder _ hprojector _ hpoll hwm last (by simp)
    have hafter := take_append_drop projector.consumer.config.batch_size
      ((s.log projector.consumer.config.database projector.consumer.config.ns).after (cursorOf projector.consumer.hwm))
    rw [hentries, append_assoc] at hafter
    have hin : (hwm, last) ∈ (s.log projector.consumer.config.database projector.consumer.config.ns).after
        (cursorOf projector.consumer.hwm) := by
      rw [← hafter]
      simp
    have hlt := lt_of_mem_after hin (h.ne_zero (OrdMap.mem_after.mp hin).1)
    have hack := ack_through_fst hlt elapsed s.rows
    have hrows (database ns : String) :
        HoldsLog database ns (ack_through projector.consumer hwm elapsed s.rows).2 (s.log database ns) := by
      cases elapsed with
      | false => exact h.holds _ ns
      | true => exact holdsLog_save (h.holds _ ns) _
    rw [hbatch, hpoll]
    refine h.advance hi hafter.symm hwhole hothers hrows ?_ n _
    rw [map_set, hack]
    rfl

end Advance

theorem Sound.step (h : s.Sound) {event : ServerEvent} (horder : s.InOrder event) : (s.step event).Sound := by
  cases event with
  | commit version changes => exact h.commit ..
  | project => exact h.project horder
  | restart => exact h.restart horder

theorem Sound.exec (h : s.Sound) {events : List ServerEvent} (horder : s.RunsInOrder events) :
    (s.exec events).Sound := by
  induction events generalizing s with
  | nil => exact h
  | cons _ _ ih => exact ih (h.step horder.1) horder.2

theorem RunsInOrder.append {events later : List ServerEvent} (h : s.RunsInOrder (events ++ later)) :
    s.RunsInOrder events ∧ (s.exec events).RunsInOrder later := by
  induction events generalizing s with
  | nil => exact ⟨trivial, h⟩
  | cons _ _ ih =>
    obtain ⟨hevents, hlater⟩ := ih h.2
    exact ⟨⟨h.1, hevents⟩, hlater⟩

/-- What later steps leave of a state: the versions grow, new entries have later
versions, and what has been applied stays so. -/
structure Continues (s t : Server) : Prop where
  version : s.version ≤ t.version
  log : ∀ database ns, ∀ row ∈ (t.log database ns).rows,
    row ∈ (s.log database ns).rows ∨ s.version < versionstamp_tx_version row.1
  applied : s.applied ⊆ t.applied

theorem Continues.refl (s : Server) : s.Continues s := ⟨le_rfl, fun _ _ _ hrow => .inl hrow, .refl _⟩

theorem Continues.trans {s t u : Server} (h : s.Continues t) (h' : t.Continues u) : s.Continues u where
  version := h.version.trans h'.version
  log database ns row hrow := by
    obtain hrow | hlt := h'.log _ ns _ hrow
    · exact h.log _ ns _ hrow
    · exact .inr (h.version.trans_lt hlt)
  applied := Subset.trans h.applied h'.applied

end Server

section Shared

private def created : CdcEntry := ⟨"1", 1, [.NodeCreate "Person" "1_1" (OrdMap.empty.set "age" (.int 1)) "1"]⟩

private def updated : CdcEntry :=
  ⟨"1", 2, [.NodeUpdate "Person" "1_1" (OrdMap.empty.set "age" (.int 2)) (OrdMap.empty.set "age" (.int 1))]⟩

private def projectorOf (ns : String) : CdcProjector := ⟨⟨⟨"cache", "db", ns, 10⟩, zero⟩, 1, 8⟩

/-- An untouched database with projectors for the given namespaces of it. -/
private def started (namespaces : List String) : Server where
  rows := .empty
  cache := .empty
  projectors := namespaces.map projectorOf
  log := fun _ _ => .empty
  version := 0
  applied := []

end Shared

end pelago_storage.rocks_cache
