import Pelago.Kv.Guarantee
import Pelago.Storage.Edge.Requests

open bytes kv pelago_core pelago_core.encoding
open pelago_storage.node List

namespace pelago_storage.edge

open Proc edge_markers

/-- A node, by its place and its id. -/
structure NodeAt where
  database : String
  ns : String
  entity_type : String
  id : NodeId

/-- The locality in a row of a node. -/
def localityOf : Option Cell → Option UInt8
  | some (.node d) => some d.locality
  | _ => none

namespace NodeAt

def key (n : NodeAt) : Bytes := data_key (Subspace.of_namespace n.database n.ns).data n.entity_type n.id.to_bytes

/-- The stored locality of the node. -/
def locality (n : NodeAt) (db : Db) : Option UInt8 := localityOf (db.rows.get n.key)

/-- Keys of the outgoing edges of the node, under any text of its id. -/
def OutgoingKey (n : NodeAt) (k : Bytes) : Prop :=
  ∃ database ns marker node_id rest, (marker = FORWARD ∨ marker = FORWARD_META) ∧
    NodeId.from_str node_id = some n.id ∧
    k = (outgoing_start (Subspace.of_namespace database ns).edge marker n.entity_type node_id).build ++ rest

/-- The node's record or one of its outgoing edges is not as before. -/
def Changed (n : NodeAt) (db db' : Db) : Prop :=
  db'.rows.get n.key ≠ db.rows.get n.key ∨ ∃ k, n.OutgoingKey k ∧ db'.rows.get k ≠ db.rows.get k

/-- The text names the node. -/
def Named (n : NodeAt) (node_id : String) : Prop := NodeId.from_str node_id = some n.id

/-- The reference names the node. -/
def Source (n : NodeAt) (source : NodeRef) : Prop :=
  source.database = n.database ∧ source.ns = n.ns ∧ source.entity_type = n.entity_type ∧ n.Named source.node_id

end NodeAt

/-- What a site does with a node: the calls of its API, and the job for an oversized
deletion. -/
inductive SiteCall where
  | update_node (node_id : String) (new_properties : Properties) (clock : Clock)
  | delete_node (node_id : String) (clock : Clock)
  | transfer_ownership (node_id : String) (target_site_id : UInt8) (clock : Clock)
  | create_edge (database ns : String) (source target : NodeRef) (label : String) (properties : Properties)
      (clock : Clock) (returned_at : Int)
  | delete_edge (database ns : String) (source target : NodeRef) (label : String) (clock : Clock)
  | delete_job (node_id : String) (clock : Clock)

namespace SiteCall

/-- The store that the executor of the job builds for itself. It has no site. -/
def job_store (self : Store) : Store := { self with site_id := "" }

/-- The request on the node, with its result left out. -/
def proc (self : Store) (n : NodeAt) : SiteCall → Proc Unit
  | update_node node_id new_properties clock => do
    let _ ← node.update_node self.node_store n.database n.ns n.entity_type node_id new_properties clock
  | delete_node node_id clock => do
    let _ ← node.delete_node self.node_store n.database n.ns n.entity_type node_id clock
  | transfer_ownership node_id target_site_id clock => do
    let _ ← node.transfer_ownership self.node_store n.database n.ns n.entity_type node_id target_site_id clock
  | create_edge database ns source target label properties clock returned_at => do
    let _ ← edge.create_edge self database ns source target label properties clock returned_at
  | delete_edge database ns source target label clock => do
    let _ ← edge.delete_edge self database ns source target label clock
  | delete_job node_id clock => do
    let _ ← node.delete_node (job_store self).node_store n.database n.ns n.entity_type node_id clock

/-- The call is one on the node. -/
def On (n : NodeAt) : SiteCall → Prop
  | update_node node_id _ _ => n.Named node_id
  | delete_node node_id _ => n.Named node_id
  | transfer_ownership node_id _ _ => n.Named node_id
  | create_edge _ _ source _ _ _ _ _ => n.Source source
  | delete_edge _ _ source _ _ _ => n.Source source
  | delete_job node_id _ => n.Named node_id

def isJob : SiteCall → Bool
  | delete_job _ _ => true
  | _ => false

/-- When the call commits, the locality of the node is still the one it has read; and a job,
which does not look at it, has read that of the site. -/
def Unmoved (site : UInt8) (n : NodeAt) (call : SiteCall) (db : Db) (reads : List (Bytes × Option Cell)) : Prop :=
  ∀ r ∈ reads, r.1 = n.key → n.locality db = localityOf r.2 ∧ (call.isJob = true → localityOf r.2 = some site)

instance (site : UInt8) (n : NodeAt) (call : SiteCall) (db : Db) (reads : List (Bytes × Option Cell)) :
    Decidable (call.Unmoved site n db reads) :=
  inferInstanceAs (Decidable (∀ r ∈ reads, r.1 = n.key →
    n.locality db = localityOf r.2 ∧ (call.isJob = true → localityOf r.2 = some site)))

end SiteCall

section Guarantee

variable {self : Store} {site : UInt8} {n : NodeAt}

/-- What the calls do to the database: they write while the node belongs to the site, or when
it is gone, and do not bring it back. -/
def OwnerStep (site : UInt8) (n : NodeAt) (db db' : Db) : Prop :=
  (n.locality db = some site ∨ db.rows.get n.key = none) ∧ (db.rows.get n.key = none → db'.rows.get n.key = none)

theorem ownerStep_of_locality {db db' : Db} (h : n.locality db = some site) : OwnerStep site n db db' := by
  refine ⟨.inl h, fun hnone => ?_⟩
  rw [NodeAt.locality, hnone] at h
  cases h

private theorem locality_of_enforced {d : NodeData} {entity_type node_id : String} {store : NodeStore}
    (hsite : local_site_id store = some site)
    (howner : enforce_local_ownership store entity_type node_id d.locality = .ok ()) : d.locality = site := by
  unfold enforce_local_ownership at howner
  rw [hsite] at howner
  dsimp only at howner
  split at howner
  · cases howner
  · rename_i h
    exact (not_not.mp h).symm

private theorem gone_stable' (db db' : Db) (h : db.rows.get n.key = none) (hstep : OwnerStep site n db db') :
    db'.rows.get n.key = none := hstep.2 h

/-- What `delete_node` does after the record is gone. -/
private theorem rest_of_delete (self : Store) (node_id : String) {valid : Db → List (Bytes × Option Cell) → Prop} :
    (do
      let _ ← self.node_store.edge_store.delete_edges_for_node_internal n.database n.ns n.entity_type node_id true
      .commit (.clear (delete_guard_key (Subspace.of_namespace n.database n.ns).data n.entity_type n.id.to_bytes))
      pure true : Proc Bool).Guarantees valid (OwnerStep site n) (fun db => db.rows.get n.key = none) [] := by
  have hconfined : (do
      let _ ← self.node_store.edge_store.delete_edges_for_node_internal n.database n.ns n.entity_type node_id true
      .commit (.clear (delete_guard_key (Subspace.of_namespace n.database n.ns).data n.entity_type n.id.to_bytes))
      pure true : Proc Bool).Confined (fun k => k ≠ n.key) := by
    refine .bind ((self.node_store.edge_store.confined _ _ _ _ _).mono fun k hk => ?_) fun _ => ?_
    · exact edgeKey_ne_data_key hk _
    · exact ⟨(Tx.touches_clear _).mpr (data_key_ne_delete_guard_key _ _ _ _).symm, trivial⟩
  refine .of_kept gone_stable' hconfined ?_ []
  intro t ht _ _ hgone hrun
  have hkept := ht.get_eq hrun (fun h => h rfl : ¬ n.key ≠ n.key)
  exact ⟨.inr hgone, hkept.trans⟩

variable {valid : Db → List (Bytes × Option Cell) → Prop} {node_id : String}

/-- From a record that a request was allowed to change, and that has not moved, the node
belongs to the site. -/
private abbrev Vouches (store : NodeStore) (site : UInt8) (n : NodeAt) (node_id : String)
    (valid : Db → List (Bytes × Option Cell) → Prop) : Prop :=
  ∀ d db reads, enforce_local_ownership store n.entity_type node_id d.locality = .ok () →
    (n.key, some (.node d)) ∈ reads → valid db reads → n.locality db = some site

theorem update_node_guarantees (hnamed : n.Named node_id) (hvouches : Vouches self.node_store site n node_id valid)
    (new_properties : Properties) (clock : Clock) :
    (node.update_node self.node_store n.database n.ns n.entity_type node_id new_properties clock).Guarantees valid
      (OwnerStep site n) (fun _ => True) [] := by
  refine update_node_cases _ _ _ _ _ _ _ (fun _ => trivial) fun _ id next _ hid hnext cell => ?_
  obtain rfl : n.id = id := Option.some.inj (hnamed.symm.trans hid)
  have hcell := hnext cell
  generalize next cell = p at hcell ⊢
  cases hcell with
  | fail => trivial
  | commit howner =>
    refine ⟨fun _ => True, fun db _ _ hunmoved _ => ⟨?_, trivial⟩, fun _ _ _ _ => trivial, trivial⟩
    exact ownerStep_of_locality (hvouches _ db _ howner mem_cons_self hunmoved)

theorem delete_node_guarantees (hnamed : n.Named node_id) (hvouches : Vouches self.node_store site n node_id valid)
    (clock : Clock) :
    (node.delete_node self.node_store n.database n.ns n.entity_type node_id clock).Guarantees valid
      (OwnerStep site n) (fun _ => True) [] := by
  refine delete_node_cases _ _ _ _ _ _ (fun _ => trivial) fun _ id next _ hid hnext cell => ?_
  obtain rfl : n.id = id := Option.some.inj (hnamed.symm.trans hid)
  have hcell := hnext cell
  generalize next cell = p at hcell ⊢
  cases hcell with
  | absent | fail => trivial
  | commit howner hplan =>
    refine ⟨fun db => db.rows.get n.key = none, fun db _ _ hunmoved hrun => ⟨?_, ?_⟩, gone_stable',
      rest_of_delete _ _⟩
    · exact ownerStep_of_locality (hvouches _ db _ howner mem_cons_self hunmoved)
    · exact (recordsLeave_of_clear (beside_delete_txn hplan) hrun).2

theorem transfer_ownership_guarantees (hnamed : n.Named node_id)
    (hvouches : Vouches self.node_store site n node_id valid) (target_site_id : UInt8) (clock : Clock) :
    (node.transfer_ownership self.node_store n.database n.ns n.entity_type node_id target_site_id clock).Guarantees
      valid (OwnerStep site n) (fun _ => True) [] := by
  refine guarantees_ofExcept_bind fun id hid => ?_
  obtain rfl : n.id = id := Option.some.inj (hnamed.symm.trans (from_str_of_parse hid))
  refine guarantees_read_bind fun cell => ?_
  cases cell with
  | none => trivial
  | some =>
    refine guarantees_ofExcept_bind fun d hd => guarantees_ofExcept_bind fun _ howner => ?_
    rw [decode_cbor_eq_ok] at hd
    subst hd
    split
    · trivial
    · refine guarantees_commit_bind rfl fun db _ _ hunmoved _ => ?_
      exact ownerStep_of_locality (hvouches d db _ howner mem_cons_self hunmoved)

/-- The check is part of the transaction that writes the edge. -/
theorem create_edge_guarantees (hsite : parse_u8 self.site_id = some site) {source : NodeRef}
    (hsource : n.Source source) (database ns : String) (target : NodeRef) (label : String) (properties : Properties)
    (clock : Clock) (returned_at : Int) :
    (edge.create_edge self database ns source target label properties clock returned_at).Guarantees valid
      (OwnerStep site n) (fun _ => True) [] := by
  refine guarantees_ofExcept_bind fun _ _ => guarantees_ofExcept_bind fun _ _ => ?_
  refine guarantees_input_bind fun _ => guarantees_ofExcept_bind fun _ _ => ?_
  refine guarantees_commit_bind rfl fun _ _ _ _ hrun => ?_
  obtain ⟨_, _, hcheck, _⟩ := Tx.run_bind_eq_ok.mp hrun
  obtain ⟨_, ⟨locality, ⟨id, d, hid, hlocality, hget⟩, howner⟩, _⟩ := run_check_endpoints hcheck
  obtain ⟨hdatabase, hns, htype, hnamed⟩ := hsource
  obtain rfl : n.id = id := Option.some.inj (hnamed.symm.trans hid)
  have howned : locality = site := by
    unfold enforce_source_ownership at howner
    rw [hsite] at howner
    dsimp only at howner
    split at howner
    · cases howner
    · rename_i h
      exact (not_not.mp h).symm
  rw [hdatabase, hns, htype] at hget
  apply ownerStep_of_locality
  rw [NodeAt.locality, NodeAt.key, hget, localityOf, hlocality, howned]

/-- The source of an edge is a record that has been read. -/
private theorem guarantees_get_source_bind {α : Type} {G : Db → Db → Prop} {A : Db → Prop} {source : NodeRef}
    (hsource : n.Source source) {f : StoredNode → Proc α}
    (hf : ∀ d : NodeData, (f ⟨source.node_id, source.entity_type, d.properties, d.locality, d.created_at,
      d.updated_at⟩).Guarantees valid G A [(n.key, some (.node d))]) :
    (get_source source >>= f).Guarantees valid G A [] := by
  obtain ⟨hdatabase, hns, htype, hnamed⟩ := hsource
  have hid : parse_node_id source.node_id = .ok n.id := by
    unfold parse_node_id
    rw [hnamed]
  unfold get_source get_node
  rw [hid, hdatabase, hns]
  simp only [ofExcept_ok_bind, read_bind, readThen_bind]
  intro cell
  rw [htype] at hf ⊢
  cases cell with
  | none => trivial
  | some c =>
    cases c with
    | node d => exact hf d
    | raw | edge | cdc => trivial

theorem delete_edge_guarantees {source : NodeRef} (hsource : n.Source source)
    (hvouches : ∀ d db reads, enforce_source_ownership self source.entity_type source.node_id d.locality = .ok () →
      (n.key, some (.node d)) ∈ reads → valid db reads → n.locality db = some site)
    (database ns : String) (target : NodeRef) (label : String) (clock : Clock) :
    (edge.delete_edge self database ns source target label clock).Guarantees valid (OwnerStep site n)
      (fun _ => True) [] := by
  refine guarantees_get_source_bind hsource fun d => guarantees_ofExcept_bind fun _ howner => ?_
  refine (find_edge_data_quiet _ ns _ _ _).guarantees_bind fun found _ hreads => ?_
  cases found with
  | none => trivial
  | some =>
    refine guarantees_ofExcept_bind fun _ _ => guarantees_read_bind fun forward => ?_
    cases forward with
    | none => trivial
    | some =>
      refine guarantees_commit_bind rfl fun db _ _ hunmoved _ => ownerStep_of_locality ?_
      exact hvouches d db _ howner (mem_cons_of_mem _ (hreads _ mem_cons_self)) hunmoved

private theorem vouches_of_site {store : NodeStore} (hsite : local_site_id store = some site) (call : SiteCall) :
    Vouches store site n node_id (call.Unmoved site n) := by
  intro d _ _ howner hmem hunmoved
  rw [(hunmoved _ hmem rfl).1, localityOf, locality_of_enforced hsite howner]

/-- Every call keeps to what the site owns. -/
theorem SiteCall.guarantees (hsite : parse_u8 self.site_id = some site) {call : SiteCall} (hon : call.On n) :
    (call.proc self n).Guarantees (call.Unmoved site n) (OwnerStep site n) (fun _ => True) [] := by
  have hlocal : local_site_id self.node_store = some site := hsite
  cases call with
  | update_node node_id new_properties clock =>
    have h := update_node_guarantees hon (vouches_of_site hlocal (.update_node node_id new_properties clock))
      new_properties clock
    exact h.map _
  | delete_node node_id clock =>
    have h := delete_node_guarantees hon (vouches_of_site hlocal (.delete_node node_id clock)) clock
    exact h.map _
  | transfer_ownership node_id target_site_id clock =>
    have h := transfer_ownership_guarantees hon
      (vouches_of_site hlocal (.transfer_ownership node_id target_site_id clock)) target_site_id clock
    exact h.map _
  | create_edge database ns _ target label properties clock returned_at =>
    exact (create_edge_guarantees hsite hon _ ns ..).map _
  | delete_edge database ns source target label clock =>
    refine (delete_edge_guarantees hon ?_ _ ns ..).map _
    intro d _ _ howner hmem hunmoved
    have howned : enforce_local_ownership self.node_store source.entity_type source.node_id d.locality = .ok () :=
      howner
    rw [(hunmoved _ hmem rfl).1, localityOf, locality_of_enforced hlocal howned]
  | delete_job node_id clock =>
    -- the job's store lets every locality pass, so it is what was read that has to vouch
    have hvouches : Vouches (job_store self).node_store site n node_id
        (Unmoved site n (.delete_job node_id clock)) := by
      intro d _ _ _ hmem hunmoved
      obtain ⟨hsame, hjob⟩ := hunmoved _ hmem rfl
      exact hsame.trans (hjob rfl)
    have h := delete_node_guarantees hon hvouches clock
    exact h.map _

end Guarantee

section Runs

variable {J : Type} [DecidableEq J]

/-- Calls on a node that run side by side. -/
abbrev CallPool (J : Type) := Pool Bytes Cell NodeId PelagoError Unit J

abbrev CallEvent (J : Type) := Event J NodeId PelagoError

/-- The calls before any of them has started. -/
def startCalls (self : Store) (n : NodeAt) (calls : J → SiteCall) (db : Db) : CallPool J :=
  ⟨db, fun j => Thread.start ((calls j).proc self n)⟩

namespace NodeAt

/-- The state after an event, with the locality that the node was last stored with. -/
def follow (n : NodeAt) (s : CallPool J × Option UInt8) (event : CallEvent J) : CallPool J × Option UInt8 :=
  (s.1.play event, (n.locality (s.1.play event).db).or s.2)

/-- The locality that the node was last stored with. -/
def lastLocality (n : NodeAt) (c : CallPool J) (events : List (CallEvent J)) : Option UInt8 :=
  (events.foldl n.follow (c, n.locality c.db)).2

variable {n : NodeAt} {c : CallPool J}

private theorem foldl_follow_fst (events : List (CallEvent J)) (s : CallPool J × Option UInt8) :
    (events.foldl n.follow s).1 = s.1.plays events := by
  induction events generalizing s with
  | nil => rfl
  | cons _ _ ih => exact ih _

theorem lastLocality_concat (events : List (CallEvent J)) (event : CallEvent J) :
    n.lastLocality c (events ++ [event]) =
      (n.locality (c.plays (events ++ [event])).db).or (n.lastLocality c events) := by
  rw [lastLocality, foldl_append, Pool.plays_append]
  simp only [foldl_cons, foldl_nil, follow]
  rw [foldl_follow_fst]
  rfl

/-- While the node has a record, it is the locality in it. -/
theorem lastLocality_of_locality {events : List (CallEvent J)} {site : UInt8}
    (h : n.locality (c.plays events).db = some site) : n.lastLocality c events = some site := by
  obtain rfl | ⟨front, _, rfl⟩ := eq_nil_or_concat events
  · exact h
  · rw [concat_eq_append] at h ⊢
    rw [lastLocality_concat, h]
    rfl

end NodeAt

variable {self : Store} {site : UInt8} {n : NodeAt} {calls : J → SiteCall} {db : Db}

/-- A node that is gone was last stored as one of the site. -/
private theorem lastLocality_of_gone {c : CallPool J} {events : List (CallEvent J)}
    (hsteps : ∀ i, i < events.length → (c.plays (events.take (i + 1))).db = (c.plays (events.take i)).db ∨
      OwnerStep site n (c.plays (events.take i)).db (c.plays (events.take (i + 1))).db)
    (hstart : c.db.rows.get n.key ≠ none) {i : Nat} (hi : i ≤ events.length)
    (hgone : (c.plays (events.take i)).db.rows.get n.key = none) : n.lastLocality c (events.take i) = some site := by
  induction i with
  | zero => exact absurd hgone hstart
  | succ i ih =>
    have hlast : n.lastLocality c (events.take i) = some site := by
      obtain hsame | ⟨howned | hbefore, _⟩ := hsteps i hi
      · rw [hsame] at hgone
        exact ih (by omega) hgone
      · exact NodeAt.lastLocality_of_locality howned
      · exact ih (by omega) hbefore
    rw [take_succ_eq_append_getElem hi, NodeAt.lastLocality_concat, hlast]
    rw [take_succ_eq_append_getElem hi] at hgone
    rw [NodeAt.locality, hgone]
    rfl

/-- Only the owner changes a node: along every interleaving of a site's calls and deletion jobs
on a node in which no commit is made after the locality that the call has read is replaced,
and no job runs on a node of another site, each change of the node's record or of its outgoing
edges is made while the locality that the node was last stored with is that of the site. -/
theorem only_owner_changes_node (hsite : parse_u8 self.site_id = some site) (hcalls : ∀ j, (calls j).On n)
    (hstored : db.rows.get n.key ≠ none) {events : List (CallEvent J)}
    (hadmits : (startCalls self n calls db).Admits (fun j => (calls j).Unmoved site n) events) {i : Nat}
    (hi : i < events.length)
    (hchanged : n.Changed ((startCalls self n calls db).plays (events.take i)).db
      ((startCalls self n calls db).plays (events.take (i + 1))).db) :
    n.lastLocality (startCalls self n calls db) (events.take i) = some site := by
  have hguarded : (startCalls self n calls db).Guarded (fun j => (calls j).Unmoved site n) (OwnerStep site n) :=
    Pool.guarded_start fun j => SiteCall.guarantees hsite (hcalls j)
  have hsteps := fun i hi => hguarded.plays_take hadmits (i := i) hi
  obtain hsame | ⟨howned | hgone, _⟩ := hsteps i hi
  · rw [hsame] at hchanged
    obtain hrecord | ⟨k, _, hedge⟩ := hchanged
    · exact absurd rfl hrecord
    · exact absurd rfl hedge
  · exact NodeAt.lastLocality_of_locality howned
  · exact lastLocality_of_gone hsteps hstored (le_of_lt hi) hgone

end Runs

/-- The store of site 1, with documents that have no properties of their own. -/
def documentStore : Store where
  get_schema _ _ _ := some ⟨"Doc", OrdMap.empty, {}, .empty⟩
  site_id := "1"
  cascade_rounds := 1
  cascade_clock _ := 0

def document : NodeAt := ⟨"shop", "main", "Doc", ⟨1, 7⟩⟩

/-- The document as one of site 1. -/
def documentDb : Db := ⟨OrdMap.ofList [(document.key, .node ⟨.empty, 1, 0, 0⟩)], fun _ => []⟩

/-- An update, or a deletion by a job, next to a transfer to site 2. -/
def besideTransfer (call : SiteCall) : Bool → SiteCall
  | true => call
  | false => .transfer_ownership "1_7" 2 ⟨5, 5⟩

def retitle : SiteCall := .update_node "1_7" (OrdMap.ofList [("title", .string "a")]) ⟨6, 6⟩

def turnsOf (turns : List Bool) : List (CallEvent Bool) := turns.map fun j => .turn j ⟨0, 0⟩

/-- The update is committed before the transfer begins. -/
theorem update_before_transfer :
    let c := startCalls documentStore document (besideTransfer retitle) documentDb
    let events := turnsOf [true, true, false, false]
    document.Changed (c.plays (events.take 1)).db (c.plays (events.take 2)).db ∧
      document.lastLocality c (events.take 1) = some 1 := by
  intro c events
  have hchanged : document.Changed (c.plays (events.take 1)).db (c.plays (events.take 2)).db :=
    Or.inl (by decide +kernel)
  have hcalls : ∀ j, (besideTransfer retitle j).On document := by
    intro j
    cases j <;> exact (by decide +kernel : NodeId.from_str "1_7" = some ⟨1, 7⟩)
  have hadmits : c.Admits (fun j => (besideTransfer retitle j).Unmoved 1 document) events := by decide +kernel
  exact ⟨hchanged, only_owner_changes_node (by decide +kernel) hcalls (by decide +kernel) hadmits (by decide) hchanged⟩

/-- An update whose check precedes a transfer is committed after it, and takes the node back
from its new owner. A job deletes a node that has been transferred. -/
theorem transferred_node_changed :
    (let c := startCalls documentStore document (besideTransfer retitle) documentDb
     let events := turnsOf [true, false, false, true]
     document.Changed (c.plays (events.take 3)).db (c.plays events).db ∧
       document.lastLocality c (events.take 3) = some 2 ∧ document.locality (c.plays events).db = some 1) ∧
    (let c := startCalls documentStore document (besideTransfer (.delete_job "1_7" ⟨6, 6⟩)) documentDb
     let events := turnsOf [false, false, true, true]
     document.Changed (c.plays (events.take 3)).db (c.plays events).db ∧
       document.lastLocality c (events.take 3) = some 2) := by
  refine ⟨?_, ?_⟩
  · exact ⟨.inl (by decide +kernel), by decide +kernel, by decide +kernel⟩
  · exact ⟨.inl (by decide +kernel), by decide +kernel⟩

end pelago_storage.edge
