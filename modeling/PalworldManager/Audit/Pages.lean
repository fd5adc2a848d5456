/-
# The pages of the history

What is read when all pages of a search are asked for one after another: the events that it lists,
each once (`search_pages`).  Each search removes what has expired before it selects, which changes
nothing for the next one.
-/

import PalworldManager.Audit.History

namespace PalworldManager

open Text

section Model

variable [Alphanumeric]

/-- So many pages from a number on, each from a search of its own. -/
def AuditHistoryService.readPages (service : AuditHistoryService) (now : Moment)
    (f : AuditFilters) : ℕ → ℕ → AuditLog → AuditLog × Except SearchError (List AuditHistoryPage)
  | 0, _, log => (log, .ok [])
  | count + 1, page, log =>
    match service.search now { f with page := page } log with
    | (log', .error e) => (log', .error e)
    | (log', .ok shown) =>
      let (log'', rest) := service.readPages now f count (page + 1) log'
      (log'', rest.map (shown :: ·))

/-- A link leads to one of the pages that were read, by its number. -/
structure LeadsTo (f : AuditFilters) (pages : List AuditHistoryPage) (link : List (Str × Str))
    (n : ℕ) : Prop where
  parsed : f.IsAccepted → parseAuditFilters (.ofQuery link) = .ok { f with page := n }
  exists_page : 1 ≤ n ∧ ∃ p, pages[n - 1]? = some p ∧ p.page = n

/-- **The pages are a partition of a listing.** -/
structure AuditHistoryService.IsPagination (service : AuditHistoryService) (now : Moment)
    (f : AuditFilters) (log : AuditLog) (pages : List AuditHistoryPage) : Prop where
  listing : ∃ events, service.IsListing now f log events ∧
    events.mapM (service.view log.users) = .ok (pages.flatMap (·.events)) ∧
    ∀ p ∈ pages, p.totalItems = events.length
  numbers : pages.map (·.page) = List.range' 1 pages.length
  totalPages : ∀ p ∈ pages, p.totalPages = pages.length
  full : ∀ p ∈ pages.dropLast, p.events.length = auditPageSize

end Model

section Prune

variable {service : AuditHistoryService} {now cutoff : Moment} {f : AuditFilters}
  {log pruned : AuditLog} {selection : AuditSelection}

/-- What was removed is not removed again. -/
theorem prune_prune (log : AuditLog) (cutoff : Moment) :
    (log.prune cutoff).prune cutoff = log.prune cutoff := by
  have hevents : (log.events.filter fun e => decide (cutoff ≤ e.occurredAt)).filter
      (fun e => decide (cutoff ≤ e.occurredAt)) =
        log.events.filter fun e => decide (cutoff ≤ e.occurredAt) := by
    rw [List.filter_filter]
    simp only [Bool.and_self]
  unfold AuditLog.prune AuditLog.filter
  simp only [hevents]

/-- What is pruned is not listed any more anyway. -/
theorem select_prune (hcutoff : retentionCutoff now = .ok cutoff) :
    service.select now f (log.prune cutoff) = service.select now f log := by
  unfold AuditHistoryService.select
  rw [hcutoff]
  show (filterPredicates service.zone f >>= _) = (filterPredicates service.zone f >>= _)
  simp only [prune_prune]

/-- A page beyond the last one is the last one. -/
theorem select_lastPage (h : service.select now f log = .ok (pruned, selection))
    (hle : selection.totalPages ≤ f.page) :
    service.select now { f with page := selection.totalPages } log = .ok (pruned, selection) := by
  unfold AuditHistoryService.select at h ⊢
  obtain ⟨cutoff, hcutoff, h⟩ := except_bind_eq_ok.mp h
  obtain ⟨predicates, hpredicates, h⟩ := except_bind_eq_ok.mp h
  obtain ⟨us, hbind, h⟩ := except_bind_eq_ok.mp h
  refine except_bind_eq_ok.mpr ⟨cutoff, hcutoff, ?_⟩
  refine except_bind_eq_ok.mpr ⟨predicates, hpredicates, ?_⟩
  refine except_bind_eq_ok.mpr ⟨us, hbind, ?_⟩
  cases h
  simp only at hle
  simp only [min_self, min_eq_right hle]
  rfl

end Prune

section Runs

variable [Alphanumeric] {service : AuditHistoryService} {now cutoff : Moment} {f : AuditFilters}
  {log log' : AuditLog} {shown : AuditHistoryPage} {pages : List AuditHistoryPage}

/-- **What one search does.** -/
theorem search_eq_ok (h : service.search now f log = (log', .ok shown)) :
    (∃ cutoff, retentionCutoff now = .ok cutoff ∧ log' = log.prune cutoff) ∧
      (service.listed now f log).mapM (service.view log.users) = .ok shown.events ∧
      shown.filters = { f with page := shown.page } ∧
      shown.totalItems = (service.listing now f log).length ∧
      shown.totalPages = pageCount (service.listing now f log).length ∧
      shown.page = min f.page (pageCount (service.listing now f log).length) := by
  unfold AuditHistoryService.search at h
  split at h
  · cases h
  · rename_i pruned selection hselect
    obtain ⟨rfl, hresult⟩ := Prod.mk.inj h
    obtain ⟨events, hevents, hpage⟩ := except_bind_eq_ok.mp hresult
    cases hpage
    obtain ⟨⟨cutoff, hcutoff, rfl⟩, hrows, hitems, htotal, hnumber⟩ := select_eq_ok hselect
    rw [hrows] at hevents
    exact ⟨⟨cutoff, hcutoff, rfl⟩, hevents, rfl, hitems, htotal, hnumber⟩

/-- A search does the same once what has expired is removed. -/
theorem search_prune (hcutoff : retentionCutoff now = .ok cutoff) :
    (service.search now f (log.prune cutoff)).2 = (service.search now f log).2 := by
  unfold AuditHistoryService.search
  rw [select_prune hcutoff]
  cases service.select now f log <;> rfl

/-- A page beyond the last one is the last one. -/
theorem search_lastPage (h : (service.search now f log).2 = .ok shown)
    (hle : shown.totalPages ≤ f.page) :
    (service.search now { f with page := shown.totalPages } log).2 = .ok shown := by
  unfold AuditHistoryService.search at h ⊢
  split at h
  · cases h
  · rename_i pruned selection hselect
    obtain ⟨events, hevents, hpage⟩ := except_bind_eq_ok.mp h
    cases hpage
    rw [select_lastPage hselect hle]
    exact except_bind_eq_ok.mpr ⟨events, hevents, rfl⟩

/-- **Each of the pages is what a search of its own returns.** -/
theorem readPages_eq_ok {count page : ℕ} (hcutoff : retentionCutoff now = .ok cutoff)
    (h : (service.readPages now f count page (log.prune cutoff)).2 = .ok pages) :
    List.Forall₂ (fun n p => (service.search now { f with page := n } log).2 = .ok p)
      (List.range' page count) pages := by
  induction count generalizing page pages with
  | zero =>
    cases h
    exact .nil
  | succ count ih =>
    unfold AuditHistoryService.readPages at h
    split at h
    · cases h
    · rename_i log' shown hsearch
      obtain ⟨rest, hrest, rfl⟩ := except_map_eq_ok.mp h
      obtain ⟨⟨cutoff', hcutoff', rfl⟩, -⟩ := search_eq_ok hsearch
      rw [hcutoff] at hcutoff'
      cases hcutoff'
      rw [prune_prune] at hrest
      have hshown := congrArg Prod.snd hsearch
      rw [search_prune hcutoff] at hshown
      exact .cons hshown (ih hrest)

end Runs

section Partition

variable {events : List AuditEvent} {pages : List AuditHistoryPage} {n count : ℕ}
  {view : AuditEvent → Except SearchError AuditEventView}
  {R : ℕ → AuditHistoryPage → Prop}

/-- A page has what is left of the listing, up to its size. -/
theorem length_pageOf : (pageOf events n).length =
    min auditPageSize (events.length - (n - 1) * auditPageSize) := by
  rw [pageOf, List.length_take, List.length_drop]

/-- A page and what comes after it. -/
theorem pageOf_append (hpos : 1 ≤ n) :
    pageOf events n ++ (events.drop ((n + 1 - 1) * auditPageSize)).take (count * auditPageSize) =
      (events.drop ((n - 1) * auditPageSize)).take ((count + 1) * auditPageSize) := by
  have hnext : (n + 1 - 1) * auditPageSize = (n - 1) * auditPageSize + auditPageSize := by
    rw [Nat.add_sub_cancel, ← Nat.succ_mul, Nat.succ_eq_add_one, Nat.sub_add_cancel hpos]
  rw [Nat.succ_mul, Nat.add_comm (count * auditPageSize), List.take_add, List.drop_drop, hnext,
    pageOf]

/-- What pages in a row show is what lies between the first and the last of them. -/
theorem mapM_flatMap {first : ℕ} (hfirst : 1 ≤ first)
    (h : List.Forall₂ (fun n p => (pageOf events n).mapM view = .ok p.events)
      (List.range' first count) pages) :
    ((events.drop ((first - 1) * auditPageSize)).take (count * auditPageSize)).mapM view =
      .ok (pages.flatMap (·.events)) := by
  induction count generalizing first pages with
  | zero =>
    cases h
    rw [Nat.zero_mul, List.take_zero]
    rfl
  | succ count ih =>
    cases h with
    | cons hpage hrest =>
      rw [← pageOf_append hfirst, List.flatMap_cons]
      exact list_mapM_append hpage (ih (Nat.le_add_left 1 first) hrest)

/-- The page of a number. -/
theorem exists_page (h : List.Forall₂ R (List.range' 1 count) pages) (hpos : 1 ≤ n)
    (hle : n ≤ count) : ∃ p, pages[n - 1]? = some p ∧ R n p := by
  obtain ⟨hlength, hget⟩ := List.forall₂_iff_get.mp h
  rw [List.length_range'] at hlength
  have hlt : n - 1 < pages.length := by omega
  refine ⟨pages[n - 1], List.getElem?_eq_getElem hlt, ?_⟩
  have hpage := hget (n - 1) (by rw [List.length_range']; omega) hlt
  simp only [List.get_eq_getElem, List.getElem_range', Nat.one_mul,
    Nat.add_sub_cancel' hpos] at hpage
  exact hpage

/-- A page that was read is that of its place. -/
theorem exists_number (h : List.Forall₂ R (List.range' 1 count) pages) {i : ℕ} (hi : i < pages.length) :
    i + 1 ≤ count ∧ R (i + 1) pages[i] := by
  have hlength := h.length_eq
  rw [List.length_range'] at hlength
  obtain ⟨p, hp, hR⟩ := exists_page h (Nat.le_add_left 1 i) (by omega)
  rw [Nat.add_sub_cancel, List.getElem?_eq_getElem hi] at hp
  cases hp
  exact ⟨by omega, hR⟩

end Partition

section Main

variable {service : AuditHistoryService} {now : Moment} {f : AuditFilters}
  {log log' : AuditLog} {shown p : AuditHistoryPage} {pages : List AuditHistoryPage} {n : ℕ}

/-- The listing is that of all pages. -/
theorem listing_page :
    service.listing now { f with page := n } log = service.listing now f log := by
  have hlists (e : AuditEvent) : service.Lists now { f with page := n } e ↔ service.Lists now f e :=
    ⟨fun h => ⟨h.kept, h.dateFrom, h.dateTo, h.action, h.result, h.origin, h.userId, h.target⟩,
      fun h => ⟨h.kept, h.dateFrom, h.dateTo, h.action, h.result, h.origin, h.userId, h.target⟩⟩
  unfold AuditHistoryService.listing
  simp only [hlists]

variable [Alphanumeric]

/-- What the search of an existing page returns. -/
theorem search_page (h : (service.search now { f with page := n } log).2 = .ok p)
    (hle : n ≤ pageCount (service.listing now f log).length) :
    (pageOf (service.listing now f log) n).mapM (service.view log.users) = .ok p.events ∧
      p.filters = { f with page := n } ∧ p.page = n ∧
      p.totalItems = (service.listing now f log).length ∧
      p.totalPages = pageCount (service.listing now f log).length := by
  have hsearch : service.search now { f with page := n } log =
      ((service.search now { f with page := n } log).1, .ok p) := Prod.ext rfl h
  obtain ⟨-, hevents, hfilters, hitems, htotal, hpage⟩ := search_eq_ok hsearch
  unfold AuditHistoryService.listed at hevents
  rw [listing_page] at hevents hitems htotal hpage
  have hn : p.page = n := hpage.trans (min_eq_left hle)
  simp only [min_eq_left hle] at hevents
  rw [hn] at hfilters
  exact ⟨hevents, hfilters, hn, hitems, htotal⟩

/-- **The pages that were read are a partition.** -/
theorem isPagination_of_forall₂
    (h : List.Forall₂ (fun n p => (service.search now { f with page := n } log).2 = .ok p)
      (List.range' 1 (pageCount (service.listing now f log).length)) pages) :
    service.IsPagination now f log pages := by
  have hlength := h.length_eq
  rw [List.length_range'] at hlength
  have hpage {i : ℕ} (hi : i < pages.length) :=
    search_page (exists_number h hi).2 (exists_number h hi).1
  refine ⟨⟨service.listing now f log, isListing_listing, ?_, fun p hp => ?_⟩, ?_, fun p hp => ?_,
    fun p hp => ?_⟩
  · have hall : List.Forall₂ (fun n p => (pageOf (service.listing now f log) n).mapM
        (service.view log.users) = .ok p.events)
        (List.range' 1 (pageCount (service.listing now f log).length)) pages := by
      refine List.forall₂_iff_get.mpr ⟨h.length_eq, fun i hi hi' => ?_⟩
      simp only [List.get_eq_getElem, List.getElem_range', Nat.one_mul, Nat.add_comm 1]
      exact (hpage hi').1
    have hflat := mapM_flatMap (Nat.le_refl 1) hall
    rw [Nat.sub_self, Nat.zero_mul, List.drop_zero, List.take_of_length_le] at hflat
    · exact hflat
    · unfold pageCount auditPageSize
      omega
  · obtain ⟨i, hi, rfl⟩ := List.getElem_of_mem hp
    exact (hpage hi).2.2.2.1
  · refine List.ext_getElem (by rw [List.length_map, List.length_range']) fun i hi hi' => ?_
    rw [List.length_map] at hi
    rw [List.getElem_map, List.getElem_range', (hpage hi).2.2.1]
    omega
  · obtain ⟨i, hi, rfl⟩ := List.getElem_of_mem hp
    rw [(hpage hi).2.2.2.2, hlength]
  · obtain ⟨i, hi, rfl⟩ := List.getElem_of_mem hp
    rw [List.length_dropLast] at hi
    rw [List.getElem_dropLast, length_of_list_mapM (hpage (by omega)).1, length_pageOf]
    unfold pageCount at hlength
    unfold auditPageSize at *
    omega

/-- A link with the number of an existing page leads to it. -/
theorem leadsTo_queryParameters
    (h : List.Forall₂ (fun n p => (service.search now { f with page := n } log).2 = .ok p)
      (List.range' 1 (pageCount (service.listing now f log).length)) pages)
    (hpos : 1 ≤ n) (hle : n ≤ pageCount (service.listing now f log).length) :
    LeadsTo f pages (f.queryParameters n) n := by
  obtain ⟨p, hp, hsearch⟩ := exists_page h hpos hle
  refine ⟨fun haccepted => parseAuditFilters_queryParameters haccepted hpos ?_, hpos, p, hp,
    (search_page hsearch hle).2.2.1⟩
  have hlisting : (service.listing now f log).length < maxTableRows := by
    rw [AuditHistoryService.listing, List.length_insertionSort]
    exact Nat.lt_of_le_of_lt (List.length_filter_le _ _) log.length_lt
  have hpower : maxTableRows < 10 ^ maxIntDigits :=
    Nat.lt_of_lt_of_le (by decide) (Nat.pow_le_pow_right (by decide) (by decide : 20 ≤ maxIntDigits))
  unfold pageCount auditPageSize at hle
  omega

/-- **The pages of a search are a partition of what it lists,** and its links lead to them. -/
theorem search_pages (hshown : service.search now f log = (log', .ok shown))
    (hpages : (service.readPages now f shown.totalPages 1 log').2 = .ok pages) :
    service.IsPagination now f log pages ∧ pages.length = shown.totalPages ∧
      (shown.totalPages ≤ f.page → pages.getLast? = some shown) ∧
      ∀ p ∈ shown :: pages, (∀ link ∈ p.previousLink, LeadsTo f pages link (p.page - 1)) ∧
        ∀ link ∈ p.nextLink, LeadsTo f pages link (p.page + 1) := by
  obtain ⟨⟨cutoff, hcutoff, rfl⟩, -, hfilters, -, htotal, hnumber⟩ := search_eq_ok hshown
  have hall := readPages_eq_ok hcutoff hpages
  have hlast (hle : shown.totalPages ≤ f.page) : pages.getLast? = some shown := by
    have hsame := search_lastPage (congrArg Prod.snd hshown) hle
    have hone : 1 ≤ shown.totalPages := by
      rw [htotal]
      exact Nat.le_max_left 1 _
    obtain ⟨p, hp, hsearch⟩ := exists_page hall hone (Nat.le_refl _)
    rw [hsame] at hsearch
    cases hsearch
    have hlength := hall.length_eq
    rw [List.length_range'] at hlength
    rw [List.getLast?_eq_getElem?, ← hlength, hp]
  rw [htotal] at hall
  have hlength := hall.length_eq
  rw [List.length_range'] at hlength
  refine ⟨isPagination_of_forall₂ hall, by rw [htotal, hlength], hlast, fun p hp => ?_⟩
  -- What is needed of a page is what all of them share.
  have hp' : p.filters = { f with page := p.page } ∧
      p.page ≤ pageCount (service.listing now f log).length ∧
      p.totalPages = pageCount (service.listing now f log).length := by
    obtain rfl | hp := List.mem_cons.mp hp
    · exact ⟨hfilters, hnumber ▸ Nat.min_le_right _ _, htotal⟩
    · obtain ⟨i, hi, rfl⟩ := List.getElem_of_mem hp
      obtain ⟨hle, hsearch⟩ := exists_number hall hi
      obtain ⟨-, hfilters, hnumber, -, htotal⟩ := search_page hsearch hle
      exact ⟨hnumber ▸ hfilters, hnumber ▸ hle, htotal⟩
  obtain ⟨hfilters, hle, htotal⟩ := hp'
  unfold AuditHistoryPage.previousLink AuditHistoryPage.nextLink
  rw [hfilters]
  constructor
  · intro link hlink
    split_ifs at hlink with hone
    · cases hlink
      exact leadsTo_queryParameters hall (Nat.le_sub_one_of_lt hone) (Nat.sub_le_of_le_add (by omega))
    · cases hlink
  · intro link hlink
    split_ifs at hlink with hlt
    · cases hlink
      exact leadsTo_queryParameters hall (Nat.le_add_left 1 _) (htotal ▸ hlt)
    · cases hlink

end Main

/-- All filters empty, on a page that does not exist. -/
def beyondLastPage : AuditFilters := ⟨none, none, none, none, none, none, none, 3⟩

/-- Fifty-one logins at one time take two pages. -/
theorem search_pages_logins : ∃ log' shown pages,
    @AuditHistoryService.search .asciiOnly utcHistory today beyondLastPage
      (storedLogins 51 (by decide)) = (log', .ok shown) ∧
    shown.totalPages = 2 ∧
    (@AuditHistoryService.IsPagination .asciiOnly utcHistory today beyondLastPage
      (storedLogins 51 (by decide)) pages ∧ pages.length = shown.totalPages ∧
      (shown.totalPages ≤ beyondLastPage.page → pages.getLast? = some shown) ∧
      ∀ p ∈ shown :: pages,
        (∀ link ∈ p.previousLink, LeadsTo beyondLastPage pages link (p.page - 1)) ∧
        ∀ link ∈ p.nextLink, LeadsTo beyondLastPage pages link (p.page + 1)) := by
  obtain ⟨shown, hshown, hp⟩ := exists_ok
    (x := (@AuditHistoryService.search .asciiOnly utcHistory today beyondLastPage
      (storedLogins 51 (by decide))).2)
    (p := fun shown => shown.totalPages == 2 &&
      (@AuditHistoryService.readPages .asciiOnly utcHistory today beyondLastPage shown.totalPages 1
        (@AuditHistoryService.search .asciiOnly utcHistory today beyondLastPage
          (storedLogins 51 (by decide))).1).2.toOption.any fun pages => pages.length == 2)
    (by decide +kernel)
  obtain ⟨htotal, hread⟩ := Bool.and_eq_true_iff.mp hp
  obtain ⟨pages, hpages, -⟩ := exists_ok hread
  have hsearch : @AuditHistoryService.search .asciiOnly utcHistory today beyondLastPage
      (storedLogins 51 (by decide)) = (_, .ok shown) := Prod.ext rfl hshown
  exact ⟨_, shown, pages, hsearch, beq_iff_eq.mp htotal,
    @search_pages _ _ _ _ _ _ _ .asciiOnly hsearch hpages⟩

end PalworldManager
