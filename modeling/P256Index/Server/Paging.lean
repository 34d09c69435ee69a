import P256Index.Registrar.Lookup

/-!
# Pages

A page number is multiplied out in the lookup program, divided back by the shell and multiplied out
again for the chain, while the cache keeps the number the client gave. All three agree exactly as
long as the first product fits a machine word.
-/

namespace P256Index.Server

open Registrar.Lookup

/-! ## What the shell makes of a fetch -/

/-- `let page = offset / limit + 1` of `execute_fetch`. -/
def shellPage (w : Window) : UInt64 := w.offset / w.limit + 1

/-- `page.saturating_sub(1).saturating_mul(page_size)` of the chain reads. -/
def calldataOffset (page pageSize : UInt64) : UInt64 :=
  UInt64.ofNat (min ((page.toNat - 1) * pageSize.toNat) (2 ^ 64 - 1))

def fetchWindow : ChainFetch → Option Window
  | .entriesByKey _ w => some w
  | .entry _ => none
  | .groupById _ w => some w
  | .groupByKey _ w => some w
  | .totals => none
  | .sites w => some w
  | .keys _ w => some w

def keyPaging : LookupCacheKey → Option Pagination
  | .entriesByKey _ p => some p
  | .entry _ => none
  | .unit _ p => some p
  | .group _ p => some p
  | .statsTotal => none
  | .sites p => some p
  | .keys _ p => some p

def endpointParams : LookupEndpoint → Option LookupParams
  | .query params => some params
  | .statsTotal => none
  | .statsSites params => some params
  | .statsKeys _ params => some params

/-! ## Pages that are fetched -/

/-- The rows a page begins after, over the integers. -/
def firstRow (p : Pagination) : Nat := (p.page.toNat - 1) * p.pageSize.toNat

/-- The fetch asks for this page: its size and order, its first row, the page the shell derives, and
the first row the chain is asked for. -/
structure FetchesPage (p : Pagination) (w : Window) : Prop where
  limit : w.limit = p.pageSize
  descending : w.descending = p.descending
  offset : w.offset.toNat = firstRow p
  page : shellPage w = p.page
  calldata : (calldataOffset (shellPage w) w.limit).toNat = firstRow p

/-- Every run fetches this page and no other, and what it caches under a key is what was fetched for
the page the key names. -/
def PagesExactly (endpoint : LookupEndpoint) (p : Pagination) : Prop :=
  ∀ tr out, (lookup endpoint).Runs tr out →
    (∀ fetch ans, ⟨.fetchChain fetch, ans⟩ ∈ tr →
      ∃ w, fetchWindow fetch = some w ∧ FetchesPage p w) ∧
    (∀ key value ans, ⟨.writeCache key value false, ans⟩ ∈ tr → keyPaging key = some p ∧
      ∃ fetch w, ⟨.fetchChain fetch, .chain value⟩ ∈ tr ∧ fetchWindow fetch = some w ∧
        FetchesPage p w)

variable {endpoint : LookupEndpoint} {params : LookupParams} {key : LookupCacheKey}
  {fetch : ChainFetch} {p : Pagination}

theorem toNat_max (a b : UInt64) : (max a b).toNat = max a.toNat b.toNat := by
  change (if a ≤ b then b else a).toNat = _
  split
  · rw [max_eq_right (UInt64.le_iff_toNat_le.mp ‹_›)]
  · have hlt := UInt64.le_iff_toNat_le.not.mp ‹_›
    rw [max_eq_left (by omega)]

theorem toNat_min (a b : UInt64) : (min a b).toNat = min a.toNat b.toNat := by
  change (if a ≤ b then a else b).toNat = _
  split
  · rw [min_eq_left (UInt64.le_iff_toNat_le.mp ‹_›)]
  · have hlt := UInt64.le_iff_toNat_le.not.mp ‹_›
    rw [min_eq_right (by omega)]

theorem one_le_page (params : LookupParams) : 1 ≤ (pagination params).page.toNat := by
  rw [pagination, toNat_max]
  exact le_max_right _ _

theorem one_le_pageSize (params : LookupParams) : 1 ≤ (pagination params).pageSize.toNat := by
  rw [pagination, toNat_min, toNat_max]
  exact le_min (le_max_right _ _) (by decide)

/-- The product is exact exactly if it fits. -/
theorem window_offset_toNat (hpage : 1 ≤ p.page.toNat) :
    p.window.offset.toNat = firstRow p % 2 ^ 64 := by
  have hsub : (p.page - 1).toNat = p.page.toNat - 1 :=
    UInt64.toNat_sub_of_le _ _ (UInt64.le_iff_toNat_le.mpr hpage)
  show ((p.page - 1) * p.pageSize).toNat = _
  rw [UInt64.toNat_mul, hsub]
  rfl

theorem fetchesPage_window (hpage : 1 ≤ p.page.toNat) (hsize : 1 ≤ p.pageSize.toNat)
    (hfits : firstRow p < 2 ^ 64) : FetchesPage p p.window := by
  have hoffset : p.window.offset.toNat = firstRow p := by
    rw [window_offset_toNat hpage, Nat.mod_eq_of_lt hfits]
  have hlt := p.page.toNat_lt
  have hshell : shellPage p.window = p.page := by
    apply UInt64.toNat_inj.mp
    show (p.window.offset / p.pageSize + 1).toNat = _
    rw [UInt64.toNat_add, UInt64.toNat_div, hoffset, firstRow, Nat.mul_div_cancel _ hsize]
    show (p.page.toNat - 1 + 1) % 2 ^ 64 = p.page.toNat
    rw [Nat.sub_add_cancel hpage, Nat.mod_eq_of_lt hlt]
  refine ⟨rfl, rfl, hoffset, hshell, ?_⟩
  rw [hshell]
  show (UInt64.ofNat (min (firstRow p) (2 ^ 64 - 1))).toNat = firstRow p
  rw [Nat.min_eq_left (by omega), UInt64.toNat_ofNat', Nat.mod_eq_of_lt hfits]

/-! ## Every run -/

/-- A paged key carries the page that was asked for, and its fetch the rows of that page. -/
theorem own_paging (hown : endpoint.own = .ok (key, fetch)) (hp : keyPaging key = some p) :
    fetchWindow fetch = some p.window ∧ ∃ params,
      endpointParams endpoint = some params ∧ p = pagination params := by
  cases endpoint with
  | statsTotal =>
      cases hown
      cases hp
  | statsSites params =>
      cases hown
      cases hp
      exact ⟨rfl, params, rfl, rfl⟩
  | statsKeys rpId params =>
      rw [LookupEndpoint.own] at hown
      split at hown
      · cases hown
      · split at hown
        · cases hown
        · cases hown
          cases hp
          exact ⟨rfl, params, rfl, rfl⟩
  | query params =>
      rw [LookupEndpoint.own, queryOwn] at hown
      repeat' split at hown
      all_goals cases hown
      all_goals cases hp
      all_goals exact ⟨rfl, params, rfl, rfl⟩

/-- A cold cache, a grant and a chain that answers: every valid endpoint can get to its fetch. -/
theorem exists_fetch (hown : endpoint.own = .ok (key, fetch)) (value : Json) :
    (lookup endpoint).Runs [⟨.readCache key, .cacheMiss⟩, ⟨.allowRead, .allowed true⟩,
      ⟨.fetchChain fetch, .chain value⟩, ⟨.writeCache key value false, .persisted⟩]
        (.ok value) := by
  rw [lookup, driveLookup_eq, hown]
  exact .ask (.ask (.ask (.ask (.done _))))

/-- Every paged endpoint, every page, page size and order. The page is fetched, derived and cached
exactly, in every run, exactly if its first row fits a machine word. -/
theorem pages_exactly_iff (hown : endpoint.own = .ok (key, fetch)) (hp : keyPaging key = some p) :
    (∃ params, endpointParams endpoint = some params ∧ p = pagination params) ∧
      (PagesExactly endpoint p ↔ (p.page.toNat - 1) * p.pageSize.toNat < 2 ^ 64) := by
  obtain ⟨hwindow, params, hparams, rfl⟩ := own_paging hown hp
  refine ⟨⟨params, hparams, rfl⟩, ?_⟩
  constructor
  · intro hexact
    obtain ⟨hfetch, -⟩ := hexact _ _ (exists_fetch hown .null)
    obtain ⟨w, hw, hpage⟩ := hfetch fetch (.chain .null) (by simp)
    have hoffset := hpage.offset
    have hlt := w.offset.toNat_lt
    rw [hoffset] at hlt
    exact hlt
  · intro hfits tr out hrun
    have hpage := fetchesPage_window (one_le_page params) (one_le_pageSize params) hfits
    rcases lookup_runs hrun with ⟨message, hrefused, -⟩ | ⟨key', fetch', hown', hlookup⟩
    · rw [hown] at hrefused
      cases hrefused
    rw [hown] at hown'
    cases hown'
    have hsound := hlookup.sound
    constructor
    · intro asked ans hmem
      obtain ⟨before, after, hsplit⟩ := List.append_of_mem hmem
      obtain ⟨rfl, -⟩ := hsound.fetch_after before asked ans after hsplit
      exact ⟨_, hwindow, hpage⟩
    · intro written value ans hmem
      obtain ⟨rfl, hfetched⟩ := hsound.positive written value ans hmem
      exact ⟨hp, fetch, _, hfetched, hwindow, hpage⟩

/-- The third page of the sites. -/
theorem pages_exactly_iff_third :
    PagesExactly (.statsSites { LookupParams.none with page := some 3 }) ⟨3, 20, true⟩ := by
  have hown : (LookupEndpoint.statsSites { LookupParams.none with page := some 3 }).own =
      .ok (.sites ⟨3, 20, true⟩, .sites ⟨40, 20, true⟩) := by decide
  exact (pages_exactly_iff hown rfl).2.mpr (by decide)

/-- A page number beyond the last word: the program asks for the rows of the first page, the shell
takes it for the first page, and what is read is cached under the number that was asked for. -/
theorem first_page_cached_as_another :
    let endpoint := LookupEndpoint.statsSites
      { LookupParams.none with page := some 9223372036854775809, pageSize := some 2 }
    let value := Json.string "the first page"
    (lookup endpoint).Runs [⟨.readCache (.sites ⟨9223372036854775809, 2, true⟩), .cacheMiss⟩,
        ⟨.allowRead, .allowed true⟩, ⟨.fetchChain (.sites ⟨0, 2, true⟩), .chain value⟩,
        ⟨.writeCache (.sites ⟨9223372036854775809, 2, true⟩) value false, .persisted⟩] (.ok value) ∧
      shellPage ⟨0, 2, true⟩ = 1 ∧ ¬ PagesExactly endpoint ⟨9223372036854775809, 2, true⟩ := by
  intro endpoint value
  have hown : endpoint.own = .ok (.sites ⟨9223372036854775809, 2, true⟩, .sites ⟨0, 2, true⟩) := by
    decide
  refine ⟨exists_fetch hown value, by decide, ?_⟩
  intro hexact
  obtain ⟨hfetch, -⟩ := hexact _ _ (exists_fetch hown value)
  obtain ⟨w, hw, hpage⟩ := hfetch (.sites ⟨0, 2, true⟩) (.chain value) (by simp)
  cases hw
  exact absurd hpage.offset (by decide)

end P256Index.Server
