import Pelago.Storage.Tenancy

open bytes kv pelago_core pelago_storage
open pelago_storage.Subspace (of_namespace)

namespace pelago_api.admin_service

/-- Clears everything under the prefix of a namespace, if there is something. -/
def drop_namespace (database ns : String) (rows : OrdMap Bytes Cell) : Bool × OrdMap Bytes Cell :=
  let subspace := of_namespace database ns
  let existed := !((rows.range subspace.pfx subspace.range_end).take 1).isEmpty
  if existed then (existed, rows.clearRange subspace.pfx subspace.range_end) else (existed, rows)

variable {k : Bytes} {database ns : String}

/-- Rows outside of the namespace are kept. -/
theorem get_drop_namespace (database ns : String) (rows : OrdMap Bytes Cell)
    (hk : ¬ (of_namespace database ns).InRange k) :
    (drop_namespace database ns rows).2.get k = rows.get k := by
  unfold drop_namespace
  dsimp only
  split
  · exact (OrdMap.get_clearRange ..).trans (if_neg hk)
  · rfl

/-- A namespace keeps to itself: its rows and what a drop of it clears lie
outside of the system area and of all other namespaces. -/
structure KeepsApart (database ns : String) : Prop where
  own : ∀ k, TenantKey database ns k → (of_namespace database ns).InRange k
  not_settings : ∀ k, TenantKey database ns k → ∀ database' ns', k ≠ namespace_settings_key database' ns'
  not_system : ∀ k, (of_namespace database ns).InRange k → ¬ Subspace.system.InRange k
  not_other : ∀ k, (of_namespace database ns).InRange k →
    ∀ database' ns', (of_namespace database' ns').InRange k → database' = database ∧ ns' = ns
  drop_tenant : ∀ rows database' ns' k, TenantKey database' ns' k → ¬ (database' = database ∧ ns' = ns) →
    (drop_namespace database ns rows).2.get k = rows.get k
  drop_system : ∀ rows (s : SystemRecord), s ≠ .settings database ns →
    (drop_namespace database ns rows).2.get s.key = rows.get s.key

private theorem parts_ne {part : String} (hpart : part ∈ parts) (x y : Bytes) :
    utf8 part ++ 0x00 :: x ≠ utf8 "_ns" ++ 0x00 :: y := by
  have hnul : ∀ name ∈ "_ns" :: parts, 0x00 ∉ utf8 name := by decide +kernel
  have hne : "_ns" ∉ parts := by decide
  intro h
  have hcut : utf8 part ++ [0x00] ++ x = utf8 "_ns" ++ [0x00] ++ y := by simpa using h
  have hnames := text.Separator.append_inj
    (text.Separator.whole_symbol_iff.mpr (hnul _ (List.mem_cons_of_mem _ hpart)))
    (text.Separator.whole_symbol_iff.mpr (hnul _ List.mem_cons_self)) hcut
  exact hne (utf8_inj hnames.1 ▸ hpart)

theorem tenantKey_ne_settings (h : TenantKey database ns k)
    (database' ns' : String) : k ≠ namespace_settings_key database' ns' := by
  obtain ⟨part, hpart, _, rfl⟩ := tenantKey_part h
  intro heq
  exact parts_ne hpart _ _ (subspace_append_inj heq).2.2

theorem tenantKey_inRange (h : TenantKey database ns k) : (of_namespace database ns).InRange k := by
  obtain ⟨part, _, rest, rfl⟩ := tenantKey_part h
  exact inRange_of_part _

/-- A record of the system area lies in a namespace of the area's own name. -/
theorem system_record_inRange {s : SystemRecord}
    (h : (of_namespace database ns).InRange s.key) : database = "_sys" ∨ s = .settings database ns := by
  obtain ⟨hhome, _⟩ | ⟨database', _, rfl⟩ := s.home_eq_or
  · obtain ⟨rest, heq, _⟩ := inRange_of_namespace_iff.mp h
    rw [s.key_eq, hhome] at heq
    exact .inl (element_append_inj (element_head _ _) (element_head _ _) heq).1.symm
  · obtain ⟨hdatabase, hns⟩ := inRange_of_namespace_inj h (inRange_of_part _)
    rw [hdatabase, hns]
    exact .inr rfl

theorem keepsApart_of_ne (h : database ≠ "_sys") (ns : String) : KeepsApart database ns where
  own _ hk := tenantKey_inRange hk
  not_settings _ hk := tenantKey_ne_settings hk
  not_system _ hk hsystem := h ((inRange_system_iff hk).mp hsystem)
  not_other _ hk _ _ hk' := inRange_of_namespace_inj hk hk'
  drop_tenant rows database' ns' k hk hne := by
    refine get_drop_namespace _ ns _ fun hrange => hne ?_
    obtain ⟨hdatabase, hns⟩ := inRange_of_namespace_inj (tenantKey_inRange hk) hrange
    exact ⟨hdatabase.symm, hns.symm⟩
  drop_system rows s hs := by
    refine get_drop_namespace _ ns _ fun hrange => ?_
    obtain hdatabase | heq := system_record_inRange hrange
    · exact h hdatabase
    · exact hs heq

/-- A namespace keeps to itself and a system record has a key of its own just
when the database is not named like the system area and no name of the record
breaks. -/
theorem keys_disjoint_iff (database ns : String) (s : SystemRecord) :
    (KeepsApart database ns ∧ ∀ s' : SystemRecord, s' ≠ s → s'.key ≠ s.key) ↔
      database ≠ "_sys" ∧ s.Unambiguous := by
  constructor
  · rintro ⟨hapart, hown⟩
    refine ⟨?_, s.unambiguous_iff.mpr fun s' hkey => by_contra fun hne => hown s' hne hkey⟩
    rintro rfl
    have hk : TenantKey "_sys" ns _ := .job ""
    exact hapart.not_system _ (hapart.own _ hk) ((inRange_system_iff (hapart.own _ hk)).mpr rfl)
  · rintro ⟨hname, hs⟩
    exact ⟨keepsApart_of_ne hname ns, fun s' hne hkey => hne (s.unambiguous_iff.mp hs s' hkey)⟩

/-- Dropping the namespace `policies` of a database `_sys` clears the policies,
and two leases of one site have the same key. -/
theorem drop_namespace_clears_policies :
    let rows : OrdMap Bytes Cell := OrdMap.empty.set (security.policy_key "admin") (.raw [1])
    rows.get (security.policy_key "admin") = some (.raw [1]) ∧
    (drop_namespace "_sys" "policies" rows).2.get (security.policy_key "admin") = none ∧
    replication.replicator_lease_key "1" "shop\x00\x02eu" "main" =
      replication.replicator_lease_key "1" "shop" "eu\x00\x02main" := by
  decide +kernel

end pelago_api.admin_service
