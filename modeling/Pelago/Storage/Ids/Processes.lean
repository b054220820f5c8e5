import Pelago.Storage.Keys

open bytes kv pelago_core pelago_core.encoding List

namespace pelago_storage.ids

open text.Separator (join join_inj symbol)

/-- What ids are handed out for. -/
structure TypeKey where
  database : String
  ns : String
  entity_type : String
  deriving DecidableEq

variable {key key' : TypeKey}

namespace TypeKey

/-- Where a process keeps the batch of the type. -/
def cacheKey (key : TypeKey) : String := key.database ++ ":" ++ key.ns ++ ":" ++ key.entity_type

/-- The names hold no colon. -/
structure Plain (key : TypeKey) : Prop where
  database : ':' ∉ key.database.toList
  ns : ':' ∉ key.ns.toList
  entity_type : ':' ∉ key.entity_type.toList

/-- No other type has the key of one without colons. -/
theorem cacheKey_inj (hkey : key.Plain) (h : key'.cacheKey = key.cacheKey) : key' = key := by
  have htext : ∀ k : TypeKey, k.cacheKey.toList =
      (symbol ':').join [k.database.toList, k.ns.toList, k.entity_type.toList] := by
    simp [cacheKey, join, intercalate_cons_cons, symbol]
  have hwhole : ∀ field ∈ [key.database.toList, key.ns.toList, key.entity_type.toList],
      (symbol ':').Whole field := by
    simp only [forall_mem_cons, not_mem_nil, false_implies, implies_true, and_true, text.Separator.whole_symbol_iff]
    exact ⟨hkey.database, hkey.ns, hkey.entity_type⟩
  have hparts := join_inj hwhole (by rfl) (((htext key').symm.trans (by rw [h])).trans (htext _))
  simp only [cons.injEq, String.toList_inj, and_true] at hparts
  cases key'
  simp_all

end TypeKey

/-- How many ids of a type the counter row of a site has reserved. -/
def counter (db : Db) (key : TypeKey) (site : UInt8) : UInt64 :=
  reserved ⟨site, 0⟩ key.database key.ns key.entity_type db

/-- A server process: its batches, the call that waits for a new one, and what
its calls have returned so far. Calls come one after the other, as each holds the
lock until it returns. -/
structure Process where
  allocator : IdAllocator
  mem : Allocations
  waiting : Option TypeKey
  issued : List (TypeKey × UInt64)

/-- The processes that share a store, and all ids that they have handed out. -/
structure Cluster (J : Type) where
  db : Db
  processes : J → Option Process
  handed : List (TypeKey × NodeId)

/-- How an attempt at the counter transaction ends. -/
inductive Outcome where
  /-- It commits, and the process gets to know. -/
  | committed
  /-- It is tried again, whether it was applied or not. -/
  | retried (applied : Bool)
  /-- The call fails, whether it was applied or not. -/
  | failed (applied : Bool)

/-- What happens next. A transaction may also be applied after its process is
gone. -/
inductive Event (J : Type) where
  | start (j : J) (allocator : IdAllocator)
  | crash (j : J)
  | call (j : J) (key : TypeKey)
  | attempt (j : J) (outcome : Outcome)
  | stray (allocator : IdAllocator) (key : TypeKey)

namespace Cluster

variable {J : Type} [DecidableEq J]

def setProcess (c : Cluster J) (j : J) (p : Option Process) : Cluster J :=
  { c with processes := Function.update c.processes j p }

/-- The counter transaction is applied. -/
def reserve (c : Cluster J) (allocator : IdAllocator) (key : TypeKey) : Cluster J :=
  { c with db := (allocate_batch_from_fdb allocator key.database key.ns key.entity_type c.db).2 }

/-- A call returns the next id of a batch. -/
def hand (c : Cluster J) (j : J) (p : Process) (key : TypeKey) (state : AllocationState) : Cluster J :=
  { c.setProcess j (some { p with
      mem := p.mem.set key.cacheKey { state with next := state.next + 1 }
      waiting := none
      issued := p.issued ++ [(key, state.next)] }) with
    handed := c.handed ++ [(key, NodeId.new p.allocator.site_id state.next)] }

def applyIf (c : Cluster J) (applied : Bool) (allocator : IdAllocator) (key : TypeKey) : Cluster J :=
  if applied then c.reserve allocator key else c

def step (c : Cluster J) : Event J → Cluster J
  | .start j allocator =>
    match c.processes j with
    | none => c.setProcess j (some ⟨allocator, .empty, none, []⟩)
    | some _ => c
  | .crash j => c.setProcess j none
  | .call j key =>
    match c.processes j with
    | some p =>
      if p.waiting.isSome then c
      else
        let state := batch key.database key.ns key.entity_type p.mem
        if state.next ≥ state.batch_end then c.setProcess j (some { p with waiting := some key })
        else c.hand j p key state
    | none => c
  | .attempt j outcome =>
    match c.processes j with
    | some p =>
      match p.waiting with
      | some key =>
        match outcome with
        | .committed =>
          let (start, db) := allocate_batch_from_fdb p.allocator key.database key.ns key.entity_type c.db
          { c with db := db }.hand j p key ⟨start, start + p.allocator.batch_size⟩
        | .retried applied => c.applyIf applied p.allocator key
        | .failed applied => (c.applyIf applied p.allocator key).setProcess j (some { p with waiting := none })
      | none => c
    | none => c
  | .stray allocator key => c.reserve allocator key

def exec (c : Cluster J) (events : List (Event J)) : Cluster J := events.foldl step c

/-- Batches are not empty, names hold no colon, and counters have room for one
more batch. -/
def Admits (c : Cluster J) : Event J → Prop
  | .start _ allocator => 0 < allocator.batch_size.toNat
  | .crash _ => True
  | .call _ key => key.Plain
  | .attempt j _ => ∀ p key, c.processes j = some p → p.waiting = some key →
    (counter c.db key p.allocator.site_id).toNat + p.allocator.batch_size.toNat < 2 ^ 64
  | .stray allocator key => (counter c.db key allocator.site_id).toNat + allocator.batch_size.toNat < 2 ^ 64

/-- Every event of the run is admitted when it comes. -/
def AdmitsAll : Cluster J → List (Event J) → Prop
  | _, [] => True
  | c, e :: rest => c.Admits e ∧ (c.step e).AdmitsAll rest

end Cluster

section Counters

theorem counter_key_inj {site site' : UInt8}
    (h : counter_key (Subspace.of_namespace key.database key.ns).ids key.entity_type site =
      counter_key (Subspace.of_namespace key'.database key'.ns).ids key'.entity_type site') :
    key = key' ∧ site = site' := by
  rw [counter_key_eq, counter_key_eq] at h
  obtain ⟨hdatabase, hns, hrest⟩ := subspace_append_inj h
  obtain ⟨_, hrest⟩ := cons.inj (append_cancel_left hrest)
  obtain ⟨htype, hsite⟩ := element_append_inj (by simp) (by simp) hrest
  have hint := encode_int_for_index_inj (cons.inj hsite).2
  have hnat : ∀ s : UInt8, (Int64.ofNat s.toNat).toInt = s.toNat := by
    intro s
    have hlt := s.toNat_lt
    rw [Int64.toInt_ofNat_of_lt (by omega)]
  refine ⟨?_, UInt8.toNat_inj.mp ?_⟩
  · cases key
    simp_all
  · have := congrArg Int64.toInt hint
    rw [hnat, hnat] at this
    exact Int.ofNat_inj.mp this

/-- A batch is added to the counter of its type and site, and to no other. -/
theorem counter_reserve (db : Db) (allocator : IdAllocator) (key key' : TypeKey) (site : UInt8)
    (hroom : (counter db key allocator.site_id).toNat + allocator.batch_size.toNat < 2 ^ 64) :
    (counter (allocate_batch_from_fdb allocator key.database key.ns key.entity_type db).2 key' site).toNat =
      (counter db key' site).toNat +
        if key' = key ∧ site = allocator.site_id then allocator.batch_size.toNat else 0 := by
  split
  · rename_i hsame
    obtain ⟨rfl, rfl⟩ := hsame
    have hmore : counter (allocate_batch_from_fdb allocator key'.database key'.ns key'.entity_type db).2 key'
        allocator.site_id = counter db key' allocator.site_id + allocator.batch_size :=
      reserved_allocate_batch allocator _ _ _ db hroom
    rw [hmore]
    exact Nat.mod_eq_of_lt hroom
  · rename_i hother
    have hrow : (allocate_batch_from_fdb allocator key.database key.ns key.entity_type db).2.rows.get
        (counter_key (Subspace.of_namespace key'.database key'.ns).ids key'.entity_type site) =
        db.rows.get (counter_key (Subspace.of_namespace key'.database key'.ns).ids key'.entity_type site) := by
      refine OrdMap.get_set_of_ne _ _ fun heq => hother ?_
      obtain ⟨hkey, hsite⟩ := counter_key_inj heq
      exact ⟨hkey, hsite⟩
    rw [add_zero]
    unfold counter reserved
    rw [hrow]

end Counters

/-- The batch of a type. -/
abbrev Process.batch (p : Process) (key : TypeKey) : AllocationState :=
  ids.batch key.database key.ns key.entity_type p.mem

/-- The ids that are left in a batch. -/
def AllocationState.Holds (state : AllocationState) (n : UInt64) : Prop :=
  state.next.toNat ≤ n.toNat ∧ n.toNat < state.batch_end.toNat

theorem Process.batch_set {p : Process} (hkey : key.Plain) (key' : TypeKey)
    (state : AllocationState) (waiting : Option TypeKey) (issued : List (TypeKey × UInt64)) :
    batch ⟨p.allocator, p.mem.set key.cacheKey state, waiting, issued⟩ key' =
      if key' = key then state else p.batch key' := by
  change ((p.mem.set key.cacheKey state).get key'.cacheKey).getD ⟨0, 0⟩ = _
  rw [OrdMap.get_set]
  split
  · rename_i heq
    rw [if_pos (TypeKey.cacheKey_inj hkey heq)]
    rfl
  · rename_i hne
    rw [if_neg fun heq => hne (congrArg _ heq)]
    rfl

/-- What a process knows about a type: its batch lies below the counter, and
what it has returned lies below what is left of the batch. -/
structure Process.Sound (p : Process) (db : Db) : Prop where
  batch_pos : 0 < p.allocator.batch_size.toNat
  waiting : ∀ key, p.waiting = some key → key.Plain
  next_le : ∀ key, key.Plain → (p.batch key).next.toNat ≤ (p.batch key).batch_end.toNat
  end_le : ∀ key, key.Plain → (p.batch key).batch_end.toNat ≤ (counter db key p.allocator.site_id).toNat
  issued_lt : ∀ key seq, (key, seq) ∈ p.issued → key.Plain ∧ seq.toNat < (p.batch key).next.toNat
  increasing : p.issued.Pairwise fun a b => a.1 = b.1 → a.2 < b.2

/-- All live batches and all ids that were handed out are apart from each other
and below the counters. -/
structure Cluster.Sound {J : Type} (c : Cluster J) : Prop where
  processes : ∀ j p, c.processes j = some p → p.Sound c.db
  apart : ∀ j j' p p' key n, c.processes j = some p → c.processes j' = some p' → j ≠ j' →
    p.allocator.site_id = p'.allocator.site_id → key.Plain → (p.batch key).Holds n → ¬ (p'.batch key).Holds n
  unused : ∀ j p key n, c.processes j = some p → key.Plain → (p.batch key).Holds n →
    (key, NodeId.new p.allocator.site_id n) ∉ c.handed
  handed_lt : ∀ key id, (key, id) ∈ c.handed → id.seq.toNat < (counter c.db key id.site).toNat
  nodup : c.handed.Nodup

namespace Cluster.Sound

variable {J : Type} [DecidableEq J] {c : Cluster J}

/-- A process that has not handed out anything yet, or none. -/
theorem setProcess (h : c.Sound) (j : J) {p : Option Process} (hp : ∀ q, p = some q → q.Sound c.db)
    (hheld : ∀ q, p = some q → ∀ key n, key.Plain → (q.batch key).Holds n →
      ∃ q', c.processes j = some q' ∧ q'.allocator = q.allocator ∧ (q'.batch key).Holds n) :
    (c.setProcess j p).Sound := by
  have hlookup : ∀ i q, (c.setProcess j p).processes i = some q →
      (i = j ∧ p = some q) ∨ (i ≠ j ∧ c.processes i = some q) := by
    intro i q hq
    by_cases hi : i = j
    · subst hi
      exact .inl ⟨rfl, by simpa [Cluster.setProcess] using hq⟩
    · exact .inr ⟨hi, by simpa [Cluster.setProcess, hi] using hq⟩
  -- what a process of the new cluster holds, one of the old one holds
  have hold : ∀ i q key n, (c.setProcess j p).processes i = some q → key.Plain → (q.batch key).Holds n →
      ∃ q', c.processes i = some q' ∧ q'.allocator = q.allocator ∧ (q'.batch key).Holds n := by
    intro i q key n hq hkey hn
    obtain ⟨rfl, hsame⟩ | ⟨_, hsame⟩ := hlookup i q hq
    · exact hheld q hsame _ n hkey hn
    · exact ⟨q, hsame, rfl, hn⟩
  refine ⟨fun i q hq => ?_, fun i i' q q' key n hq hq' hne hsite hkey hn hn' => ?_, fun i q key n hq hkey hn => ?_,
    h.handed_lt, h.nodup⟩
  · obtain ⟨_, hq⟩ | ⟨_, hq⟩ := hlookup i q hq
    · exact hp q hq
    · exact h.processes i q hq
  · obtain ⟨o, ho, hoa, hon⟩ := hold i q _ n hq hkey hn
    obtain ⟨o', ho', hoa', hon'⟩ := hold i' q' _ n hq' hkey hn'
    exact h.apart i i' o o' _ n ho ho' hne (by rw [hoa, hoa', hsite]) hkey hon hon'
  · obtain ⟨o, ho, hoa, hon⟩ := hold i q _ n hq hkey hn
    rw [← hoa]
    exact h.unused i o _ n ho hkey hon

omit [DecidableEq J] in
/-- Counters only grow. -/
theorem reserve (h : c.Sound) {allocator : IdAllocator}
    (hroom : (counter c.db key allocator.site_id).toNat + allocator.batch_size.toNat < 2 ^ 64) :
    (c.reserve allocator key).Sound := by
  have hgrow : ∀ key' site, (counter c.db key' site).toNat ≤
      (counter (c.reserve allocator key).db key' site).toNat := by
    intro key' site
    change _ ≤ (counter (allocate_batch_from_fdb allocator key.database key.ns key.entity_type c.db).2 key' site).toNat
    rw [counter_reserve c.db allocator key key' site hroom]
    omega
  refine ⟨fun j p hp => ?_, h.apart, h.unused, fun key' id hid => (h.handed_lt key' id hid).trans_le (hgrow _ _),
    h.nodup⟩
  have hsound := h.processes j p hp
  exact { hsound with end_le := fun key' hkey' => (hsound.end_le key' hkey').trans (hgrow _ _) }

/-- The next id of a batch that is apart from everything else. -/
theorem hand (h : c.Sound) {j : J} {p : Process} (hp : c.processes j = some p) (hkey : key.Plain)
    (state : AllocationState) (hleft : state.next.toNat < state.batch_end.toNat)
    (hend : state.batch_end.toNat ≤ (counter c.db key p.allocator.site_id).toNat)
    (hnext : (p.batch key).next.toNat ≤ state.next.toNat)
    (hothers : ∀ j' p' n, c.processes j' = some p' → j' ≠ j → p'.allocator.site_id = p.allocator.site_id →
      state.Holds n → ¬ (p'.batch key).Holds n)
    (hunused : ∀ n, state.Holds n → (key, .new p.allocator.site_id n) ∉ c.handed) :
    (c.hand j p key state).Sound := by
  have hsound := h.processes j p hp
  have hsucc : (state.next + 1).toNat = state.next.toNat + 1 := by
    have hlt := state.batch_end.toNat_lt
    exact toNat_succ _ (by omega)
  have hlookup : ∀ i q, (c.hand j p key state).processes i = some q →
      (i = j ∧ q = ⟨p.allocator, p.mem.set key.cacheKey { state with next := state.next + 1 }, none,
        p.issued ++ [(key, state.next)]⟩) ∨ (i ≠ j ∧ c.processes i = some q) := by
    intro i q hq
    by_cases hi : i = j
    · subst hi
      exact .inl ⟨rfl, by simpa [Cluster.hand, Cluster.setProcess, eq_comm] using hq⟩
    · exact .inr ⟨hi, by simpa [Cluster.hand, Cluster.setProcess, hi] using hq⟩
  -- what is left to the process is left of the batch, or was left to it before
  have hheld : ∀ key' n, key'.Plain → (Process.batch ⟨p.allocator,
      p.mem.set key.cacheKey { state with next := state.next + 1 }, none,
      p.issued ++ [(key, state.next)]⟩ key').Holds n →
      (key' = key ∧ state.Holds n ∧ n ≠ state.next) ∨ (key' ≠ key ∧ (p.batch key').Holds n) := by
    intro key' n hkey' hn
    rw [Process.batch_set hkey _] at hn
    split at hn
    · rename_i heq
      obtain ⟨hlo, hhi⟩ := hn
      dsimp only at hlo hhi
      refine .inl ⟨heq, ⟨by omega, hhi⟩, ?_⟩
      rintro rfl
      omega
    · rename_i hne
      exact .inr ⟨hne, hn⟩
  refine ⟨fun i q hq => ?_, fun i i' q q' key' n hq hq' hne hsite hkey' hn hn' => ?_,
    fun i q key' n hq hkey' hn => ?_, fun key' id hid => ?_, ?_⟩
  · obtain ⟨rfl, rfl⟩ | ⟨_, hq₁⟩ := hlookup i q hq
    · refine ⟨hsound.batch_pos, (fun _ hw => by cases hw), fun key' hkey' => ?_, fun key' hkey' => ?_,
        fun key' seq hseq => ?_, ?_⟩
      · rw [Process.batch_set hkey _]
        split
        · dsimp only
          omega
        · exact hsound.next_le _ hkey'
      · rw [Process.batch_set hkey _]
        split
        · rename_i heq
          rw [heq]
          exact hend
        · exact hsound.end_le _ hkey'
      · obtain hseq | hseq := mem_append.mp hseq
        · obtain ⟨hkey', hlt⟩ := hsound.issued_lt _ _ hseq
          refine ⟨hkey', ?_⟩
          rw [Process.batch_set hkey _]
          split
          · rename_i heq
            rw [heq] at hlt
            dsimp only
            omega
          · exact hlt
        · cases mem_singleton.mp hseq
          refine ⟨hkey, ?_⟩
          rw [Process.batch_set hkey _, if_pos rfl]
          dsimp only
          omega
      · refine pairwise_append.mpr ⟨hsound.increasing, pairwise_singleton .., fun a ha b hb heq => ?_⟩
        cases mem_singleton.mp hb
        have hlt := (hsound.issued_lt _ _ ha).2
        dsimp only at heq
        rw [heq] at hlt
        exact UInt64.lt_iff_toNat_lt.mpr (by dsimp only; omega)
    · exact h.processes i q hq₁
  · obtain ⟨rfl, rfl⟩ | ⟨hi, hq₁⟩ := hlookup i q hq
    · obtain ⟨rfl, _⟩ | ⟨hi', hq₁'⟩ := hlookup i' q' hq'
      · exact hne rfl
      · obtain ⟨heq, hstate, _⟩ | ⟨_, hbatch⟩ := hheld key' n hkey' hn
        · exact hothers i' q' n hq₁' hi' hsite.symm hstate (heq ▸ hn')
        · exact h.apart i i' p q' _ n hp hq₁' hne hsite hkey' hbatch hn'
    · obtain ⟨rfl, rfl⟩ | ⟨_, hq₁'⟩ := hlookup i' q' hq'
      · obtain ⟨heq, hstate, _⟩ | ⟨_, hbatch⟩ := hheld _ n hkey' hn'
        · exact hothers i q n hq₁ hi hsite hstate (heq ▸ hn)
        · exact h.apart i i' q p key' n hq₁ hp hne hsite hkey' hn hbatch
      · exact h.apart i i' q q' _ n hq₁ hq₁' hne hsite hkey' hn hn'
  · intro hmem
    obtain hold | hnew := mem_append.mp hmem
    · obtain ⟨rfl, rfl⟩ | ⟨_, hq₁⟩ := hlookup i q hq
      · obtain ⟨heq, hstate, _⟩ | ⟨_, hbatch⟩ := hheld _ n hkey' hn
        · exact hunused n hstate (heq ▸ hold)
        · exact h.unused i p _ n hp hkey' hbatch hold
      · exact h.unused i q _ n hq₁ hkey' hn hold
    · obtain ⟨heq, hid⟩ := Prod.mk.inj (mem_singleton.mp hnew)
      obtain ⟨hsite, hseq⟩ := NodeId.mk.inj hid
      obtain ⟨rfl, rfl⟩ | ⟨hi, hq₁⟩ := hlookup i q hq
      · obtain ⟨_, _, hfirst⟩ | ⟨hother, _⟩ := hheld _ n hkey' hn
        · exact hfirst hseq
        · exact hother heq
      · refine hothers i q n hq₁ hi hsite ?_ (heq ▸ hn)
        rw [hseq]
        exact ⟨le_refl _, hleft⟩
  · obtain hold | hnew := mem_append.mp hid
    · exact h.handed_lt _ id hold
    · cases mem_singleton.mp hnew
      exact hleft.trans_le hend
  · refine nodup_append.mpr ⟨h.nodup, by simp, ?_⟩
    rintro a ha b hb rfl
    cases mem_singleton.mp hb
    exact hunused _ ⟨le_refl _, hleft⟩ ha

/-- A process whose batches and history stay as they are. -/
theorem setWaiting (h : c.Sound) {j : J} {p : Process} (hp : c.processes j = some p) {waiting : Option TypeKey}
    (hwaiting : ∀ key, waiting = some key → key.Plain) :
    (c.setProcess j (some { p with waiting := waiting })).Sound := by
  refine h.setProcess j (fun q hq => ?_) fun q hq _ n _ hn => ?_
  · cases hq
    exact { h.processes j p hp with waiting := hwaiting }
  · cases hq
    exact ⟨p, hp, rfl, hn⟩

omit [DecidableEq J] in
theorem applyIf (h : c.Sound) {allocator : IdAllocator} (applied : Bool)
    (hroom : (counter c.db key allocator.site_id).toNat + allocator.batch_size.toNat < 2 ^ 64) :
    (c.applyIf applied allocator key).Sound := by
  unfold Cluster.applyIf
  split
  · exact h.reserve hroom
  · exact h

theorem step (h : c.Sound) {e : Event J} (hadmits : c.Admits e) : (c.step e).Sound := by
  cases e with
  | start j =>
    cases hj : c.processes j with
    | some =>
      simp only [Cluster.step, hj]
      exact h
    | none =>
      simp only [Cluster.step, hj]
      refine h.setProcess j (fun q hq => ?_) fun q hq _ n _ hn => ?_
      · cases hq
        exact ⟨hadmits, (fun _ hw => by cases hw), fun _ _ => le_refl _, fun _ _ => Nat.zero_le _,
          (fun _ _ hmem => by cases hmem), .nil⟩
      · cases hq
        exact absurd hn.2 (by simp [batch, ids.batch])
  | crash j => exact h.setProcess j (fun q hq => by cases hq) fun q hq => by cases hq
  | call j key =>
    cases hj : c.processes j with
    | none =>
      simp only [Cluster.step, hj]
      exact h
    | some p =>
      simp only [Cluster.step, hj]
      split
      · exact h
      split
      · exact h.setWaiting hj fun _ heq => Option.some.inj heq ▸ hadmits
      · rename_i hleft
        have hsound := h.processes j p hj
        exact h.hand hj hadmits _
          (UInt64.lt_iff_toNat_lt.mp (UInt64.not_le.mp hleft)) (hsound.end_le _ hadmits)
          (le_refl _)
          (fun j' p' n hj' hne hsite hn => h.apart j j' p p' _ n hj hj' (symm hne) hsite.symm hadmits hn)
          fun n hn => h.unused j p _ n hj hadmits hn
  | attempt j outcome =>
    cases hj : c.processes j with
    | none =>
      simp only [Cluster.step, hj]
      exact h
    | some p =>
      cases hwaiting : p.waiting with
      | none =>
        simp only [Cluster.step, hj, hwaiting]
        exact h
      | some key =>
        simp only [Cluster.step, hj, hwaiting]
        have hroom := hadmits p _ hj hwaiting
        have hsound := h.processes j p hj
        have hkey := hsound.waiting _ hwaiting
        cases outcome with
        | retried applied => exact h.applyIf _ hroom
        | failed applied =>
          refine (h.applyIf _ hroom).setWaiting ?_ fun _ heq => by cases heq
          unfold Cluster.applyIf
          split <;> exact hj
        | committed =>
          -- the new batch starts where the counter stood, above everything there was
          have hmore := counter_reserve _ _ _ key p.allocator.site_id hroom
          rw [if_pos ⟨rfl, rfl⟩] at hmore
          have hsum : (counter c.db key p.allocator.site_id + p.allocator.batch_size).toNat =
              (counter c.db key p.allocator.site_id).toNat + p.allocator.batch_size.toNat := by
            exact Nat.mod_eq_of_lt hroom
          have hpos := hsound.batch_pos
          refine (h.reserve hroom).hand hj hkey ⟨counter c.db key p.allocator.site_id,
            counter c.db key p.allocator.site_id + p.allocator.batch_size⟩ ?_ ?_ ?_ ?_ ?_
          · dsimp only
            omega
          · exact (hsum.trans hmore.symm).le
          · exact (hsound.next_le _ hkey).trans (hsound.end_le _ hkey)
          · intro j' p' n hj' _ hsite hn hn'
            have hend := (h.processes j' p' hj').end_le key hkey
            rw [hsite] at hend
            exact absurd hn.1 (not_le.mpr (hn'.2.trans_le hend))
          · intro n hn hmem
            exact absurd hn.1 (not_le.mpr (h.handed_lt _ _ hmem))
  | stray => exact h.reserve hadmits

theorem exec (h : c.Sound) {events : List (Event J)} (hadmits : c.AdmitsAll events) : (c.exec events).Sound := by
  induction events generalizing c with
  | nil => exact h
  | cons _ _ ih => exact ih (h.step hadmits.1) hadmits.2

end Cluster.Sound

/-- Processes that share a store never hand out an id twice, and each one hands
out the ids of a type in increasing order. -/
theorem ids_never_handed_out_twice {J : Type} [DecidableEq J] (c : Cluster J) (hdown : ∀ j, c.processes j = none)
    (hnone : c.handed = []) (events : List (Event J)) (hadmits : c.AdmitsAll events) :
    (c.exec events).handed.Nodup ∧
    ∀ j p, (c.exec events).processes j = some p → p.issued.Pairwise fun a b => a.1 = b.1 → a.2 < b.2 := by
  have hstart : c.Sound := by
    refine ⟨fun j p hp => ?_, fun j _ p _ _ _ hp => ?_, fun j p _ _ hp => ?_, fun key id hid => ?_, ?_⟩
    · rw [hdown j] at hp
      cases hp
    · rw [hdown j] at hp
      cases hp
    · rw [hdown j] at hp
      cases hp
    · rw [hnone] at hid
      cases hid
    · rw [hnone]
      exact nodup_nil
  have hsound := hstart.exec hadmits
  exact ⟨hsound.nodup, fun j p hp => (hsound.processes j p hp).increasing⟩

/-- Two processes of one site with batches of different sizes; an attempt is
retried, one fails, and a process is started again. -/
def rivals : List (Event Bool) :=
  let key : TypeKey := ⟨"db", "ns", "Person"⟩
  [.start true ⟨1, 2⟩, .start false ⟨1, 3⟩, .call true key, .attempt true (.retried true), .call false key,
    .attempt false .committed, .attempt true .committed, .call false key, .crash true, .start true ⟨1, 5⟩,
    .call true key, .attempt true (.failed true), .call true key, .attempt true .committed]

theorem rivals_ids_distinct :
    ((⟨⟨.empty, fun _ => []⟩, fun _ => none, []⟩ : Cluster Bool).exec rivals).handed.Nodup := by
  have hplain : TypeKey.Plain ⟨"db", "ns", "Person"⟩ := ⟨by decide, by decide, by decide⟩
  refine (ids_never_handed_out_twice _ (fun _ => rfl) rfl rivals ?_).1
  refine ⟨Nat.succ_pos 1, Nat.succ_pos 2, hplain, ?_, hplain, ?_, ?_, hplain, trivial, Nat.succ_pos 4, hplain, ?_,
    hplain, ?_, trivial⟩
  all_goals
    intro p key hp hwaiting
    cases hp
    cases hwaiting
    decide +kernel

end pelago_storage.ids
