import Pelago.Storage.Cdc

open kv pelago_core pelago_storage pelago_storage.cdc List kv.OrdMap

namespace pelago_api.replication_service

abbrev Events := List (Versionstamp × CdcEntry)

/-- The entries of one page that come from the wanted site, added to those
collected so far. The flag tells that the limit was reached and the rest of the
page left aside. -/
def scan_page (source_site : String) (limit : Nat) : Events → Events → Events × Bool
  | [], filtered => (filtered, false)
  | (vs, entry) :: page, filtered =>
    if entry.site = source_site then
      if (filtered ++ [(vs, entry)]).length = limit then (filtered ++ [(vs, entry)], true)
      else scan_page source_site limit page (filtered ++ [(vs, entry)])
    else scan_page source_site limit page filtered

/-- A collection in progress: what has been collected and where the next page
starts. -/
inductive Collection where
  | more (filtered : Events) (cursor : Option Versionstamp)
  | finished (filtered : Events)

def page_size (limit : Nat) : Nat := max 1 (min limit 1000)

/-- One round of `collect_cdc_entries`, with the page it fetched. -/
def collect_round (source_site : String) (limit : Nat) (page filtered : Events) : Collection :=
  if page.isEmpty then .finished filtered
  else
    match scan_page source_site limit page filtered with
    | (filtered, true) => .finished filtered
    | (filtered, false) =>
      if page.length < page_size limit then .finished filtered
      else .more filtered (page.getLast?.map Prod.fst)

/-- A page is read in a transaction of its own. Without a filter one page of the
asked length is all. -/
def fetch_round (rows : OrdMap Bytes Cell) (database ns source_site : String) (limit : Nat)
    (filtered : Events) (cursor : Option Versionstamp) : Except PelagoError Collection :=
  if source_site = "" then do
    let page ← read_cdc_entries rows database ns cursor limit
    pure (.finished page)
  else do
    let page ← read_cdc_entries rows database ns cursor (page_size limit)
    pure (collect_round source_site limit page filtered)

/-- The loop of `collect_cdc_entries`, for as many rounds as the fuel allows. -/
def collect_rounds (fetch_page : Option Versionstamp → Nat → Except PelagoError Events) (source_site : String)
    (limit : Nat) : Nat → Events → Option Versionstamp → Except PelagoError (Option Events)
  | 0, _, _ => .ok none
  | fuel + 1, filtered, cursor => do
    match collect_round source_site limit (← fetch_page cursor (page_size limit)) filtered with
    | .finished filtered => pure (some filtered)
    | .more filtered cursor => collect_rounds fetch_page source_site limit fuel filtered cursor

def collect_cdc_entries (fetch_page : Option Versionstamp → Nat → Except PelagoError Events)
    (after_versionstamp : Option Versionstamp) (limit : Nat) (source_site_filter : Option String) (fuel : Nat) :
    Except PelagoError (Option Events) :=
  match source_site_filter with
  | none => (fetch_page after_versionstamp limit).map some
  | some source_site => collect_rounds fetch_page source_site limit fuel [] after_versionstamp

/-- The limit of a request; zero stands for the default. -/
def request_limit (limit : Nat) : Nat := if limit > 0 then limit else 1000

/-- A page contributes its wanted entries in order. -/
theorem scan_page_eq (source_site : String) (limit : Nat) (page filtered : Events) :
    ∃ front back, page = front ++ back ∧ (scan_page source_site limit page filtered).1 =
        filtered ++ front.filter (fun row => decide (row.2.site = source_site)) ∧
      ((scan_page source_site limit page filtered).2 = false → back = []) := by
  fun_induction scan_page source_site limit page filtered with
  | case1 => exact ⟨[], [], rfl, by simp, fun _ => rfl⟩
  | case2 vs entry page _ hsite =>
    exact ⟨[(vs, entry)], page, rfl, by simp [hsite], fun h => by cases h⟩
  | case3 vs entry _ _ hsite _ ih | case4 vs entry _ _ hsite ih =>
    obtain ⟨front, back, hpage, heq, hback⟩ := ih
    exact ⟨(vs, entry) :: front, back, by rw [hpage]; rfl, by simp [heq, hsite], hback⟩

/-- A page fills the collection up to the limit. -/
theorem scan_page_of_lt {source_site : String} {limit : Nat} {page filtered : Events} (h : filtered.length < limit) :
    scan_page source_site limit page filtered =
      let found := filtered ++ page.filter fun row => decide (row.2.site = source_site)
      (found.take limit, decide (limit ≤ found.length)) := by
  fun_induction scan_page source_site limit page filtered with
  | case1 => simp [take_of_length_le h.le, h]
  | case2 _ _ _ filtered hsite hfull =>
    have hlimit : limit = filtered.length + 1 := by simpa using hfull.symm
    simp [hsite, hlimit, take_append, take_of_length_le]
  | case3 vs entry _ filtered hsite hfull ih =>
    have hlt : (filtered ++ [(vs, entry)]).length < limit := lt_of_le_of_ne (by simpa using Nat.succ_le_of_lt h) hfull
    simpa [hsite] using ih hlt
  | case4 _ _ _ _ hsite ih => simpa [hsite] using ih h

section

variable {fetch_page : Option Versionstamp → Nat → Except PelagoError Events} {log : OrdMap Versionstamp CdcEntry}
  (hfetch : ∀ cursor n, fetch_page cursor n = .ok ((log.after (position cursor)).take n))

include hfetch

theorem collect_rounds_eq {source_site : String} {limit fuel : Nat} {filtered : Events} {cursor : Option Versionstamp}
    (hfew : filtered.length < limit) (hfuel : (log.after (position cursor)).length < fuel) :
    collect_rounds fetch_page source_site limit fuel filtered cursor = .ok (some
      ((filtered ++ (log.after (position cursor)).filter fun row => decide (row.2.site = source_site)).take limit)) := by
  induction fuel generalizing filtered cursor with
  | zero => exact absurd hfuel (Nat.not_lt_zero _)
  | succ _ ih =>
    rw [collect_rounds, hfetch]
    generalize hrest : log.after (position cursor) = rest at hfuel ⊢
    have hpos : 0 < page_size limit := lt_of_lt_of_le one_pos (le_max_left ..)
    obtain rfl | hne := eq_or_ne rest []
    · simp [collect_round, bind, Except.bind, pure, Except.pure, take_of_length_le hfew.le]
    have hpage : rest.take (page_size limit) ≠ [] := by simp [hne, hpos.ne']
    have hsplit := take_append_drop (page_size limit) rest
    have hlen : (rest.take (page_size limit)).length = min (page_size limit) rest.length := length_take
    generalize rest.take (page_size limit) = page, rest.drop (page_size limit) = back at hpage hsplit hlen ⊢
    subst hsplit
    simp only [bind, Except.bind, collect_round, List.isEmpty_iff, hpage, if_false, scan_page_of_lt hfew]
    rw [filter_append, ← append_assoc]
    generalize hfound : filtered ++ page.filter (fun row => decide (row.2.site = source_site)) = found
    by_cases hfull : limit ≤ found.length
    · simp [hfull, pure, Except.pure, take_append_of_le_length]
    have hmore : found.length < limit := not_le.mp hfull
    rw [length_append] at hlen hfuel
    by_cases hshort : page.length < page_size limit
    · -- A short page is the last one.
      obtain rfl : back = [] := length_eq_zero_iff.mp (by omega)
      simp [hfull, hshort, pure, Except.pure]
    · obtain rfl | ⟨front, row, rfl⟩ := eq_nil_or_concat page
      · exact absurd rfl hpage
      have hback : log.after (position (some row.1)) = back := after_of_after_eq (by simpa using hrest)
      have hrounds := @ih _ (some row.1) hmore (by rw [hback]; omega)
      rw [hback] at hrounds
      rw [length_concat] at hshort
      simpa [hfull, hshort, take_of_length_le hmore.le] using hrounds

/-- A filtered pull ends and returns the first `limit` entries of the wanted site
after the start. -/
theorem collect_cdc_entries_eq (after_versionstamp : Option Versionstamp) (source_site : String) {limit : Nat}
    (hlimit : 1 ≤ limit) :
    ∃ rounds, ∀ fuel, rounds ≤ fuel →
      collect_cdc_entries fetch_page after_versionstamp limit (some source_site) fuel = .ok (some
        (((log.after (position after_versionstamp)).filter fun row => decide (row.2.site = source_site)).take
          limit)) := by
  refine ⟨(log.after (position after_versionstamp)).length + 1, fun fuel hfuel => ?_⟩
  rw [collect_cdc_entries, collect_rounds_eq hfetch (by exact hlimit) hfuel, nil_append]

end

private def stampOne : Versionstamp := .ofVersion 1

private def stampTwo : Versionstamp := .ofVersion 2

private def twoSites : OrdMap Versionstamp CdcEntry :=
  (OrdMap.empty.set stampOne ⟨"1", 0, []⟩).set stampTwo ⟨"2", 0, []⟩

theorem second_site_pulled :
    (((twoSites.after (position none)).filter fun row => decide (row.2.site = "2")).take 1 =
        [(stampTwo, ⟨"2", 0, []⟩)]) ∧
      ∃ rounds, ∀ fuel, rounds ≤ fuel →
        collect_cdc_entries (fun cursor n => .ok ((twoSites.after (position cursor)).take n)) none 1 (some "2") fuel =
          .ok (some [(stampTwo, ⟨"2", 0, []⟩)]) :=
  ⟨by decide +kernel, @collect_cdc_entries_eq _ twoSites (fun _ _ => rfl) none "2" _ le_rfl⟩

end pelago_api.replication_service
