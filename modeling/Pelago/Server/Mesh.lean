import Pelago.Server.Replicator

open kv pelago_core pelago_storage pelago_storage.cdc pelago_api.replication_service List

namespace pelago_server.replicator

open Function Task

structure ReplicationPeer where
  remote_site_id : String
  endpoint : String
  deriving DecidableEq

/-- One `site=endpoint` of the peer list. -/
def parse_peer (item : List Char) : Option ReplicationPeer :=
  let item := text.trim item
  if item.isEmpty then none
  else do
    let (site, endpoint) ← text.splitOnce '=' item
    let site := text.trim site
    let endpoint := text.trim endpoint
    if site.isEmpty || endpoint.isEmpty then none
    else some ⟨String.ofList site, String.ofList endpoint⟩

/-- A peer that is named twice is kept twice. -/
def parse_peers (raw : String) : List ReplicationPeer :=
  (text.splitChar ',' raw.toList).filterMap parse_peer

theorem parse_peers_named {raw : String} {peer : ReplicationPeer} (h : peer ∈ parse_peers raw) :
    peer.remote_site_id ≠ "" := by
  obtain ⟨item, _, hitem⟩ := mem_filterMap.mp h
  unfold parse_peer at hitem
  dsimp only at hitem
  split at hitem
  · cases hitem
  cases hsplit : text.splitOnce '=' (text.trim item) with
  | none =>
    rw [hsplit] at hitem
    cases hitem
  | some halves =>
    rw [hsplit] at hitem
    simp only [Option.bind_eq_bind, Option.bind_some] at hitem
    split at hitem
    · cases hitem
    · rename_i hempty
      intro hname
      rw [← Option.some.inj hitem] at hname
      have hnil : text.trim halves.1 = [] := by
        have hlist := congrArg String.toList hname
        simpa using hlist
      simp [hnil] at hempty

/-- Sites that replicate one namespace from each other: what each one lists as
its peers, and how many events it asks for at a time. -/
structure Topology where
  database : String
  ns : String
  replication_peers : String → String
  batch_size : String → Nat

/-- The site that the `i`th task of a site follows. -/
def Topology.peer (top : Topology) (site : String) (i : Nat) : Option String :=
  ((parse_peers (top.replication_peers site)).map ReplicationPeer.remote_site_id)[i]?

structure Site where
  rows : OrdMap Bytes Cell
  log : OrdMap Versionstamp CdcEntry

/-- All sites with their databases and tasks, and the entries each site has
passed to `apply_replication_op`, in the order in which it did. -/
structure Mesh where
  sites : String → Site
  tasks : String → Nat → Task
  applied : String → Events

/-- What a task does next; for an operation with its result, for the mirrored
entry with its versionstamp, or none when it could not be appended. -/
inductive TaskStep where
  | request
  | page
  | fail
  | receive
  | outcome (applied : Except PelagoError (Option CdcOperation))
  | mirror (vs : Option Versionstamp)
  | close
  | saved

inductive MeshStep where
  | commit (site : String) (vs : Versionstamp) (timestamp : Int) (operations : List CdcOperation)
  | task (site : String) (i : Nat) (step : TaskStep)

/-- An entry at the end of a site's log. -/
def Mesh.append (top : Topology) (m : Mesh) (site : String) (vs : Versionstamp) (entry : CdcEntry) : Mesh :=
  if ∀ row ∈ (m.sites site).log.rows, row.1 < vs then
    let grown : Site := ⟨(m.sites site).rows.set (entry_key top.database top.ns vs) (.cdc entry),
      (m.sites site).log.set vs entry⟩
    { m with sites := Function.update m.sites site grown }
  else m

def Mesh.setTask (m : Mesh) (site : String) (i : Nat) (t : Task) : Mesh :=
  { m with tasks := Function.update m.tasks site (Function.update (m.tasks site) i t) }

/-- The step of one task, which follows `peer`. -/
def Mesh.taskStep (top : Topology) (m : Mesh) (site peer : String) (i : Nat) : TaskStep → Mesh
  | .request => m.setTask site i (m.tasks site i).request
  | .page => m.setTask site i
      ((m.tasks site i).page (m.sites peer).rows top.database top.ns peer (top.batch_size site))
  | .fail => m.setTask site i (m.tasks site i).fail
  | .receive =>
    { m.setTask site i ((m.tasks site i).receive peer) with
      applied := Function.update m.applied site (m.applied site ++ (m.tasks site i).received peer) }
  | .outcome applied => m.setTask site i ((m.tasks site i).outcome applied)
  | .mirror vs =>
    let m' := match (m.tasks site i).mirror_entry peer, vs with
      | some entry, some vs => m.append top site vs entry
      | _, _ => m
    m'.setTask site i (m.tasks site i).advance
  | .close => m.setTask site i (m.tasks site i).close
  | .saved => m.setTask site i (m.tasks site i).saved

def Mesh.step (top : Topology) (m : Mesh) : MeshStep → Mesh
  | .commit site vs timestamp operations => m.append top site vs ⟨site, timestamp, operations⟩
  | .task site i step =>
    match top.peer site i with
    | some peer => m.taskStep top site peer i step
    | none => m

def Mesh.exec (top : Topology) (m : Mesh) (steps : List MeshStep) : Mesh := steps.foldl (Mesh.step top) m

/-- Sites whose tasks have not begun. -/
def Mesh.start (sites : String → Site) : Mesh := ⟨sites, fun _ _ => .start none, fun _ => []⟩

/-- Every site holds its log, and every task has passed on what its peer wrote
up to its cursor. -/
structure Mesh.Inv (top : Topology) (m : Mesh) : Prop where
  logs : ∀ site, HoldsLog top.database top.ns (m.sites site).rows (m.sites site).log
  reads : ∀ {site i peer}, top.peer site i = some peer → (m.tasks site i).Reads peer (m.sites peer).log
    ((m.applied site).filter fun row => decide (row.2.site = peer))
  authors : ∀ site, ∀ row ∈ m.applied site, ∃ i, top.peer site i = some row.2.site

theorem Mesh.inv_start {top : Topology} {sites : String → Site}
    (hlogs : ∀ site, HoldsLog top.database top.ns (sites site).rows (sites site).log) :
    (start sites).Inv top where
  logs := hlogs
  reads _ := reads_start ..
  authors := by simp [start]

section Steps

variable {top : Topology} {m : Mesh} {site peer : String} {i : Nat}

theorem Mesh.append_extends (top : Topology) (m : Mesh) (site : String) (vs : Versionstamp) (entry : CdcEntry)
    (other : String) : ((m.append top site vs entry).sites other).log.Extends (m.sites other).log := by
  unfold append
  split
  · rename_i hlast
    by_cases hother : other = site
    · subst hother
      simpa using OrdMap.extends_set _ hlast
    · simpa [update_of_ne hother] using OrdMap.Extends.refl _
  · exact OrdMap.Extends.refl _

theorem Mesh.Inv.append (h : m.Inv top) (site : String) (vs : Versionstamp) (entry : CdcEntry) :
    (m.append top site vs entry).Inv top := by
  have hext := append_extends top m site vs entry
  have htasks : (m.append top site vs entry).tasks = m.tasks := by
    unfold Mesh.append
    split <;> rfl
  have happlied : (m.append top site vs entry).applied = m.applied := by
    unfold Mesh.append
    split <;> rfl
  refine ⟨fun other => ?_, fun hpeer => ?_, ?_⟩
  · unfold Mesh.append
    split
    · by_cases hother : other = site
      · subst hother
        simpa using (h.logs _).append entry
      · simpa [update_of_ne hother] using h.logs _
    · exact h.logs _
  · rw [htasks, happlied]
    exact (h.reads hpeer).extend (hext _)
  · rw [happlied]
    exact h.authors

/-- A step of one task leaves the other ones. -/
theorem Mesh.Inv.setTask (h : m.Inv top) (hpeer : top.peer site i = some peer) {t : Task}
    (ht : t.Reads peer (m.sites peer).log ((m.applied site).filter fun row => decide (row.2.site = peer))) :
    (m.setTask site i t).Inv top := by
  refine ⟨h.logs, ?_, h.authors⟩
  intro site' i' peer' hpeer'
  unfold Mesh.setTask
  by_cases hsite : site' = site
  · subst hsite
    by_cases hi : i' = i
    · subst hi
      cases hpeer.symm.trans hpeer'
      simpa using ht
    · simpa [update_of_ne hi] using h.reads hpeer'
  · simpa [update_of_ne hsite] using h.reads hpeer'

theorem Task.received_site {t : Task} {row : Versionstamp × CdcEntry} (h : row ∈ t.received peer) :
    row.2.site = peer := by
  unfold received at h
  split at h
  · split at h
    · cases h
    · rename_i hsite
      rw [mem_singleton.mp h]
      exact not_not.mp hsite
  · cases h

theorem Task.received_filter (t : Task) (peer other : String) :
    ((t.received peer).filter fun row => decide (row.2.site = other)) =
      if peer = other then t.received peer else [] := by
  by_cases hother : peer = other
  · rw [if_pos hother, filter_eq_self]
    exact fun _ hrow => decide_eq_true ((received_site hrow).trans hother)
  · rw [if_neg hother, filter_eq_nil_iff]
    intro _ hrow
    rw [received_site hrow]
    simpa using hother

/-- What one task receives is not by the author any other task follows. -/
theorem Mesh.Inv.receive (h : m.Inv top) (hpeer : top.peer site i = some peer)
    (honce : ∀ j, top.peer site j = some peer → j = i) : (m.taskStep top site peer i .receive).Inv top := by
  refine ⟨h.logs, ?_, ?_⟩
  · intro site' i' peer' hpeer'
    change Reads peer' (m.sites peer').log
      (update m.tasks site (update (m.tasks site) i ((m.tasks site i).receive peer)) site' i')
      ((update m.applied site (m.applied site ++ (m.tasks site i).received peer) site').filter
        fun row => decide (row.2.site = peer'))
    by_cases hsite : site' = site
    · subst hsite
      rw [update_self, update_self, filter_append, received_filter]
      by_cases hi : i' = i
      · subst hi
        cases hpeer.symm.trans hpeer'
        rw [update_self, if_pos rfl]
        exact (h.reads hpeer).receive
      · have hother : peer ≠ peer' := fun heq => hi (honce i' (heq ▸ hpeer'))
        rw [update_of_ne hi, if_neg hother, append_nil]
        exact h.reads hpeer'
    · rw [update_of_ne hsite, update_of_ne hsite]
      exact h.reads hpeer'
  · intro site' row hrow
    change row ∈ update m.applied site (m.applied site ++ (m.tasks site i).received peer) site' at hrow
    by_cases hsite : site' = site
    · subst hsite
      rw [update_self] at hrow
      obtain hold | hnew := mem_append.mp hrow
      · exact h.authors _ _ hold
      · exact ⟨i, by rw [received_site hnew, hpeer]⟩
    · rw [update_of_ne hsite] at hrow
      exact h.authors _ _ hrow

theorem Topology.peer_named (hpeer : top.peer site i = some peer) : peer ≠ "" := by
  obtain ⟨p, hp, rfl⟩ := mem_map.mp (mem_of_getElem? hpeer)
  exact parse_peers_named hp

theorem Mesh.Inv.taskStep (h : m.Inv top) (hpeer : top.peer site i = some peer)
    (honce : ∀ j, top.peer site j = some peer → j = i) (step : TaskStep) :
    (m.taskStep top site peer i step).Inv top := by
  have ht := h.reads hpeer
  cases step with
  | request => exact h.setTask hpeer ht.request
  | page => exact h.setTask hpeer (ht.page (h.logs _) (Topology.peer_named hpeer) _)
  | fail => exact h.setTask hpeer ht.fail
  | receive => exact h.receive hpeer honce
  | outcome applied => exact h.setTask hpeer (ht.outcome _)
  | close => exact h.setTask hpeer ht.close
  | saved => exact h.setTask hpeer ht.saved
  | mirror vs =>
    unfold Mesh.taskStep
    dsimp only
    split
    · rename_i entry vs hentry
      have happend := h.append site vs entry
      have ht' := happend.reads hpeer
      have htasks : (m.append top site vs entry).tasks = m.tasks := by
        unfold Mesh.append
        split <;> rfl
      rw [htasks] at ht'
      exact happend.setTask hpeer ht'.advance
    · exact h.setTask hpeer ht.advance

/-- No site names a peer twice. -/
def Topology.NamesOnce (top : Topology) : Prop :=
  ∀ site, ((parse_peers (top.replication_peers site)).map ReplicationPeer.remote_site_id).Nodup

theorem Mesh.Inv.step (h : m.Inv top) (hnames : top.NamesOnce) (s : MeshStep) : (m.step top s).Inv top := by
  cases s with
  | commit site vs => exact h.append _ vs _
  | task site i step =>
    unfold Mesh.step
    dsimp only
    split
    · rename_i peer hpeer
      refine h.taskStep hpeer (fun j hj => ?_) _
      obtain ⟨hlt, _⟩ := List.getElem?_eq_some_iff.mp hj
      exact (getElem?_inj hlt (hnames _)).mp (hj.trans hpeer.symm)
    · exact h

theorem Mesh.Inv.exec (h : m.Inv top) (hnames : top.NamesOnce) (steps : List MeshStep) :
    (m.exec top steps).Inv top := by
  induction steps generalizing m with
  | nil => exact h
  | cons s _ ih => exact ih (h.step hnames s)

end Steps

/-- The entries by `author` that a site has passed to `apply_replication_op`. -/
def Mesh.appliedFrom (m : Mesh) (site author : String) : Events :=
  (m.applied site).filter fun row => decide (row.2.site = author)

/-- The entries of a site's log that the site itself wrote. -/
def Mesh.ownLog (m : Mesh) (site : String) : Events :=
  (m.sites site).log.rows.filter fun row => decide (row.2.site = site)

/-- When no site names a peer twice or names itself, what a site has applied from
an author is where the author's log starts, and no site has applied its own
entries. -/
theorem applied_in_log_order (top : Topology) (hnames : top.NamesOnce)
    (hothers : ∀ site i, top.peer site i ≠ some site) (sites : String → Site)
    (hlogs : ∀ site, HoldsLog top.database top.ns (sites site).rows (sites site).log)
    (steps : List MeshStep) :
    let m := (Mesh.start sites).exec top steps
    (∀ author site, m.appliedFrom site author <+: m.ownLog author ∧
      (m.appliedFrom site author).Pairwise fun row row' => row.1 < row'.1) ∧
    ∀ site, ∀ row ∈ m.applied site, row.2.site ≠ site := by
  intro m
  have hinv : m.Inv top := (Mesh.inv_start hlogs).exec hnames steps
  have hfront : ∀ author site, m.appliedFrom site author <+: m.ownLog author := by
    intro author site
    by_cases hpeer : ∃ i, top.peer site i = some author
    · obtain ⟨i, hi⟩ := hpeer
      exact (hinv.reads hi).passed_isPrefix
    · have hnil : m.appliedFrom site author = [] := by
        rw [Mesh.appliedFrom, filter_eq_nil_iff]
        intro row hrow hauthor
        exact hpeer (of_decide_eq_true hauthor ▸ hinv.authors site row hrow)
      rw [hnil]
      exact nil_prefix
  refine ⟨fun author site => ⟨hfront _ site, ?_⟩, fun site row hrow hself => ?_⟩
  · exact ((m.sites author).log.sorted.filter _).sublist (hfront _ site).sublist
  · obtain ⟨i, hi⟩ := hinv.authors site row hrow
    exact hothers site i (hself ▸ hi)

/-- Sites without any data. -/
def quietSites : String → Site := fun _ => ⟨.empty, .empty⟩

def sampleStamp : Versionstamp := ⟨0x01 :: List.replicate 9 0x00, rfl⟩

/-- Only site 2 has peers. -/
def sampleTopology (replication_peers : String) : Topology :=
  ⟨"db", "ns", fun site => if site = "2" then replication_peers else "", fun _ => 512⟩

/-- The `i`th task of site 2 pulls and receives one entry. -/
def samplePull (i : Nat) : List MeshStep :=
  [.task "2" i .request, .task "2" i .page, .task "2" i .receive]

/-- Site 2 pulls twice, the second time after another entry. -/
theorem followed_site_applied_once :
    let top := sampleTopology "1=https://a:1"
    let m := (Mesh.start quietSites).exec top
      (.commit "1" sampleStamp 5 [.NodeDelete "Person" "1_0"] :: samplePull 0 ++
        [.task "2" 0 (.outcome (.ok none)), .task "2" 0 (.mirror none), .task "2" 0 .close, .task "2" 0 .saved] ++
        .commit "1" sampleStamp.next 6 [.NodeDelete "Person" "1_1"] :: samplePull 0)
    (m.appliedFrom "2" "1").map Prod.fst = [sampleStamp, sampleStamp.next] ∧
      m.appliedFrom "2" "1" <+: m.ownLog "1" := by
  have hnames : (sampleTopology "1=https://a:1").NamesOnce := by
    intro site
    dsimp only [sampleTopology]
    split <;> decide +kernel
  have hothers : ∀ site i, (sampleTopology "1=https://a:1").peer site i ≠ some site := by
    intro site i hpeer
    have hmem := mem_of_getElem? hpeer
    dsimp only [sampleTopology] at hmem
    split at hmem
    · rename_i hsite
      rw [hsite] at hmem
      revert hmem
      decide +kernel
    · revert hmem
      rw [show parse_peers "" = [] by decide +kernel]
      exact fun hmem => nomatch hmem
  exact ⟨by decide +kernel,
    ((applied_in_log_order _ hnames hothers quietSites (fun _ => by intro rest c; simp [quietSites]) _).1 "1" "2").1⟩

/-- A peer that is listed twice has its entries applied twice. -/
theorem peer_listed_twice_applied_twice :
    let m := (Mesh.start quietSites).exec (sampleTopology "1=https://a:1, 1=https://b:1")
      (.commit "1" sampleStamp 5 [.NodeDelete "Person" "1_0"] :: samplePull 0 ++ samplePull 1)
    (m.ownLog "1").map Prod.fst = [sampleStamp] ∧
      (m.appliedFrom "2" "1").map Prod.fst = [sampleStamp, sampleStamp] := by
  decide +kernel

end pelago_server.replicator
