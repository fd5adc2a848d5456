/-
# The history of the audit

`prune_expired_audit_events` (`audit/service.py`), and
`AuditHistoryService.search` (`audit/history.py`).  A moment is a number of microseconds from
the start of the year 1, in UTC.  The events of a database have different ids, details that
were written as JSON, and moments that a `datetime` can hold.

A search that was accepted returns unless a date leaves the range of the calendar, the number of
the user that of the database, or the target has no UTF-8 (`search_returns_iff`).
-/

import PalworldManager.Audit.Details
import PalworldManager.Audit.Filters
import PalworldManager.Numbers.Binary64

namespace PalworldManager

open Text

section Model

/-- The microseconds of a day. -/
def dayMicroseconds : ℤ := 86400000000

/-- What a `datetime` holds. -/
abbrev IsMoment (t : ℤ) : Prop := 0 ≤ t ∧ t < maxOrdinal * dayMicroseconds

/-- A `datetime` in UTC. -/
abbrev Moment := {t : ℤ // IsMoment t}

instance : DecidableLE Moment := fun s t => inferInstanceAs (Decidable (s.1 ≤ t.1))

instance : DecidableLT Moment := fun s t => inferInstanceAs (Decidable (s.1 < t.1))

/-- `AUDIT_RETENTION_DAYS`. -/
def auditRetentionDays : ℤ := 90

/-- `AUDIT_PAGE_SIZE`. -/
def auditPageSize : ℕ := 50

/-- How many rows a table may have: a database file has no more than so many bytes. -/
def maxTableRows : ℕ := 2 ^ 48

/-- A row of `audit_events`. -/
structure AuditEvent where
  id : ℕ
  occurredAt : Moment
  action : Str
  result : Str
  origin : Str
  userId : Option ℕ
  jobId : Option ℕ
  target : Option Str
  reason : Option Str
  durationMs : Option ℕ
  details : Option (List (Str × Detail))
  isClean : ∀ entries ∈ details, Detail.CleanEntries entries

/-- The tables that a search reads. -/
structure AuditLog where
  events : List AuditEvent
  users : List (ℕ × Str)
  nodup : (events.map AuditEvent.id).Nodup
  length_lt : events.length < maxTableRows

/-- The events that meet a condition. -/
def AuditLog.filter (log : AuditLog) (p : AuditEvent → Bool) : AuditLog where
  events := log.events.filter p
  users := log.users
  nodup := log.nodup.sublist (List.filter_sublist.map _)
  length_lt := Nat.lt_of_le_of_lt (List.length_filter_le p _) log.length_lt

/-- A `ZoneInfo`: the offset of a local time, and that at a moment. -/
structure TimeZone where
  name : Str
  utcoffset : ℤ → ℤ
  offsetAt : ℤ → ℤ
  utcoffset_lt : ∀ t, |utcoffset t| < dayMicroseconds
  offsetAt_lt : ∀ t, |offsetAt t| < dayMicroseconds

/-- What a search raises. -/
inductive SearchError where
  | dateOverflow
  | integerTooLarge
  | notEncodable
  | details (error : DetailError)
  deriving Repr, DecidableEq

/-- A `datetime` computed, if there is one. -/
def moment (t : ℤ) : Except SearchError Moment :=
  if h : IsMoment t then .ok ⟨t, h⟩ else .error .dateOverflow

/-- `current - timedelta(days=AUDIT_RETENTION_DAYS)`. -/
def retentionCutoff (now : Moment) : Except SearchError Moment :=
  moment (now - auditRetentionDays * dayMicroseconds)

/-- `prune_expired_audit_events`. -/
def AuditLog.prune (log : AuditLog) (cutoff : Moment) : AuditLog :=
  log.filter fun e => cutoff ≤ e.occurredAt

/-- When a date starts, by its number. -/
def TimeZone.start (zone : TimeZone) (ordinal : ℕ) : ℤ :=
  let t := ((ordinal : ℤ) - 1) * dayMicroseconds
  t - zone.utcoffset t

/-- `datetime.combine(date, time.min, timezone).astimezone(UTC)`, of a date by its number. -/
def TimeZone.midnight (zone : TimeZone) (ordinal : ℕ) : Except SearchError Moment :=
  moment (zone.start ordinal)

/-- `date + timedelta(days=1)`, by its number. -/
def nextOrdinal (d : CalendarDate) : Except SearchError ℕ :=
  if d.toordinal + 1 ≤ maxOrdinal then .ok (d.toordinal + 1) else .error .dateOverflow

/-- The predicates of a query. -/
inductive AuditPredicate where
  | occurredFrom (t : Moment)
  | occurredBefore (t : Moment)
  | action (value : Str)
  | result (value : Str)
  | origin (value : Str)
  | user (id : ℕ)
  | target (pattern : Str)

/-- `filters.target.replace("\\", "\\\\").replace("%", "\\%").replace("_", "\\_")`, with a
percent sign at both ends. -/
def likePattern (target : Str) : Str :=
  .ofChar '%' :: (Pattern.replace (str "_") (str "\\_") (Pattern.replace (str "%") (str "\\%")
    (Pattern.replace (str "\\") (str "\\\\") target)) ++ [.ofChar '%'])

/-- `_filter_predicates`. -/
def filterPredicates (zone : TimeZone) (f : AuditFilters) :
    Except SearchError (List AuditPredicate) := do
  let dateFrom ← f.dateFrom.mapM fun d => zone.midnight d.toordinal
  let dateTo ← f.dateTo.mapM fun d => do zone.midnight (← nextOrdinal d)
  return (dateFrom.map .occurredFrom).toList ++ (dateTo.map .occurredBefore).toList ++
    (f.action.map .action).toList ++ (f.result.map .result).toList ++
    (f.origin.map .origin).toList ++ (f.userId.map .user).toList ++
    (f.target.map fun t => .target (likePattern t)).toList

/-- What the driver raises for a value that the database does not take. -/
def AuditPredicate.bind : AuditPredicate → Except SearchError Unit
  | .occurredFrom _ => .ok ()
  | .occurredBefore _ => .ok ()
  | .action t => refuseIf ((encodeUtf8 t).isNone) .notEncodable
  | .result t => refuseIf ((encodeUtf8 t).isNone) .notEncodable
  | .origin t => refuseIf ((encodeUtf8 t).isNone) .notEncodable
  | .user id => refuseIf (2 ^ 63 ≤ id) .integerTooLarge
  | .target t => refuseIf ((encodeUtf8 t).isNone) .notEncodable

/-- A row of the page. -/
structure AuditEventView where
  id : ℕ
  occurredAt : Moment
  occurredAtLocal : Moment
  action : Str
  result : Str
  resultLabel : Str
  origin : Str
  originLabel : Str
  username : Str
  target : Str
  reason : Option Str
  duration : Option Str
  details : Option Str
  jobId : Option ℕ

/-- `RESULT_LABELS`. -/
def resultLabels : List (Str × Str) :=
  [(str "SUCCESS", str "Sucesso"), (str "FAILURE", str "Falha"),
    (str "CANCELLED", str "Cancelada"), (str "INTERRUPTED", str "Interrompida")]

/-- `ORIGIN_LABELS`. -/
def originLabels : List (Str × Str) :=
  [(str "ADMINISTRATOR", str "Administrador"), (str "AUTOMATIC", str "Automático"),
    (str "SYSTEM", str "Sistema")]

/-- `_duration_label`. -/
def durationLabel (durationMs : ℕ) : Str :=
  if durationMs < 1000 then str (toString durationMs ++ " ms")
  else
    let hundredths :=
      Binary64.roundHalfEven (Binary64.quotient durationMs 1000 * 100) Binary64.one
    str (toString (hundredths / 100) ++ ".") ++ [.ofChar (digit (hundredths / 10)),
      .ofChar (digit hundredths)] ++ str " s"

/-- `AuditHistoryPage`; a link is the query it has. -/
structure AuditHistoryPage where
  events : List AuditEventView
  filters : AuditFilters
  actions : List Str
  users : List (ℕ × Str)
  totalItems : ℕ
  page : ℕ
  totalPages : ℕ
  timezoneName : Str

/-- `previous_url`. -/
def AuditHistoryPage.previousLink (p : AuditHistoryPage) : Option (List (Str × Str)) :=
  if 1 < p.page then some (p.filters.queryParameters (p.page - 1)) else none

/-- `next_url`. -/
def AuditHistoryPage.nextLink (p : AuditHistoryPage) : Option (List (Str × Str)) :=
  if p.page < p.totalPages then some (p.filters.queryParameters (p.page + 1)) else none

/-- What a search depends on besides the tables and the clock: the time zone of the settings,
what the database holds to be `LIKE` a pattern, and the sensitive values. -/
structure AuditHistoryService where
  zone : TimeZone
  like : Str → Str → Bool
  sensitive : List Str
  arranged : Arranged sensitive

/-- Whether a row meets a predicate. -/
def AuditPredicate.holds (like : Str → Str → Bool) (e : AuditEvent) : AuditPredicate → Bool
  | .occurredFrom t => t ≤ e.occurredAt
  | .occurredBefore t => e.occurredAt < t
  | .action value => e.action == value
  | .result value => e.result == value
  | .origin value => e.origin == value
  | .user id => e.userId == some id
  | .target pattern => e.target.any fun t => like t pattern

/-- `ORDER BY occurred_at DESC, id DESC`. -/
def isListedBefore (a b : AuditEvent) : Prop :=
  b.occurredAt < a.occurredAt ∨ b.occurredAt = a.occurredAt ∧ b.id ≤ a.id

instance : DecidableRel isListedBefore := fun _ _ => inferInstanceAs (Decidable (_ ∨ _))

/-- What the session of a search selects. -/
structure AuditSelection where
  rows : List AuditEvent
  actions : List Str
  users : List (ℕ × Str)
  totalItems : ℕ
  page : ℕ
  totalPages : ℕ

/-- The session of `AuditHistoryService.search`. -/
def AuditHistoryService.select (service : AuditHistoryService) (now : Moment) (f : AuditFilters)
    (log : AuditLog) : Except SearchError (AuditLog × AuditSelection) := do
  let pruned := log.prune (← retentionCutoff now)
  let predicates ← filterPredicates service.zone f
  let _ ← predicates.mapM AuditPredicate.bind
  let matching := pruned.events.filter fun e => predicates.all (·.holds service.like e)
  let totalPages := max 1 (Binary64.ceil (Binary64.quotient matching.length auditPageSize))
  let page := min f.page totalPages
  return (pruned, {
    rows := ((matching.insertionSort isListedBefore).drop ((page - 1) * auditPageSize)).take
      auditPageSize
    actions := (pruned.events.map (·.action)).dedup.insertionSort (· ≤ ·)
    users := (pruned.users.filter fun u => pruned.events.any (·.userId == some u.1)).insertionSort
      fun u v => u.2 < v.2 ∨ u.2 = v.2 ∧ u.1 ≤ v.1
    totalItems := matching.length
    page := page
    totalPages := totalPages })

/-- `json.dumps(details, ensure_ascii=False, sort_keys=True) if details else None`. -/
def shownDetails : Option (List (Str × Detail)) → Except SearchError (Option Str)
  | none => .ok none
  | some [] => .ok none
  | some entries => ((Detail.mapping entries).written.mapError .details).map some

variable [Alphanumeric]

/-- `_event_view`. -/
def AuditHistoryService.view (service : AuditHistoryService) (users : List (ℕ × Str))
    (e : AuditEvent) : Except SearchError AuditEventView := do
  let redact := redactAuditText service.arranged
  let details ← (redactAuditDetails service.arranged e.details).mapError .details
  let occurredAtLocal ← moment (e.occurredAt + service.zone.offsetAt e.occurredAt)
  let written ← shownDetails details
  return {
    id := e.id
    occurredAt := e.occurredAt
    occurredAtLocal := occurredAtLocal
    action := e.action
    result := e.result
    resultLabel := (resultLabels.lookup e.result).getD e.result
    origin := e.origin
    originLabel := (originLabels.lookup e.origin).getD e.origin
    username := match e.userId.bind fun id => users.lookup id with
      | none => str "—"
      | some [] => str "—"
      | some name => redact name
    target := match e.target with
      | none => str "—"
      | some [] => str "—"
      | some target => redact target
    reason := e.reason.bind fun reason => if reason = [] then none else some (redact reason)
    duration := e.durationMs.map durationLabel
    details := written
    jobId := e.jobId }

/-- `AuditHistoryService.search`: a session that raises is rolled back. -/
def AuditHistoryService.search (service : AuditHistoryService) (now : Moment) (f : AuditFilters)
    (log : AuditLog) : AuditLog × Except SearchError AuditHistoryPage :=
  match service.select now f log with
  | .error e => (log, .error e)
  | .ok (pruned, selection) => (pruned, do
      let events ← selection.rows.mapM (service.view pruned.users)
      return {
        events := events
        filters := { f with page := selection.page }
        actions := selection.actions
        users := selection.users
        totalItems := selection.totalItems
        page := selection.page
        totalPages := selection.totalPages
        timezoneName := service.zone.name })

end Model

section Specification

/-- The event is of the time, the kind and the target that are asked for, and not expired. -/
structure AuditHistoryService.Lists (service : AuditHistoryService) (now : Moment)
    (f : AuditFilters) (e : AuditEvent) : Prop where
  kept : now - auditRetentionDays * dayMicroseconds ≤ (e.occurredAt : ℤ)
  dateFrom : ∀ d ∈ f.dateFrom, service.zone.start d.toordinal ≤ (e.occurredAt : ℤ)
  dateTo : ∀ d ∈ f.dateTo, (e.occurredAt : ℤ) < service.zone.start (d.toordinal + 1)
  action : ∀ a ∈ f.action, e.action = a
  result : ∀ r ∈ f.result, e.result = r
  origin : ∀ o ∈ f.origin, e.origin = o
  userId : ∀ n ∈ f.userId, e.userId = some n
  target : ∀ t ∈ f.target, ∃ s ∈ e.target, service.like s (likePattern t) = true

instance (service : AuditHistoryService) (now : Moment) (f : AuditFilters) (e : AuditEvent) :
    Decidable (service.Lists now f e) :=
  decidable_of_iff
    (now - auditRetentionDays * dayMicroseconds ≤ (e.occurredAt : ℤ) ∧
      (∀ d ∈ f.dateFrom, service.zone.start d.toordinal ≤ (e.occurredAt : ℤ)) ∧
      (∀ d ∈ f.dateTo, (e.occurredAt : ℤ) < service.zone.start (d.toordinal + 1)) ∧
      (∀ a ∈ f.action, e.action = a) ∧ (∀ r ∈ f.result, e.result = r) ∧
      (∀ o ∈ f.origin, e.origin = o) ∧ (∀ n ∈ f.userId, e.userId = some n) ∧
      ∀ t ∈ f.target, ∃ s ∈ e.target, service.like s (likePattern t) = true)
    ⟨fun ⟨h₁, h₂, h₃, h₄, h₅, h₆, h₇, h₈⟩ => ⟨h₁, h₂, h₃, h₄, h₅, h₆, h₇, h₈⟩,
      fun ⟨h₁, h₂, h₃, h₄, h₅, h₆, h₇, h₈⟩ => ⟨h₁, h₂, h₃, h₄, h₅, h₆, h₇, h₈⟩⟩

/-- What all pages together list. -/
structure AuditHistoryService.IsListing (service : AuditHistoryService) (now : Moment)
    (f : AuditFilters) (log : AuditLog) (events : List AuditEvent) : Prop where
  mem_iff : ∀ e, e ∈ events ↔ e ∈ log.events ∧ service.Lists now f e
  nodup : events.Nodup
  ordered : events.Pairwise fun a b =>
    b.occurredAt < a.occurredAt ∨ b.occurredAt = a.occurredAt ∧ b.id < a.id

/-- The listing. -/
def AuditHistoryService.listing (service : AuditHistoryService) (now : Moment)
    (f : AuditFilters) (log : AuditLog) : List AuditEvent :=
  (log.events.filter fun e => service.Lists now f e).insertionSort isListedBefore

/-- How many pages so many events have. -/
def pageCount (n : ℕ) : ℕ := max 1 ((n + (auditPageSize - 1)) / auditPageSize)

/-- The part of a listing on a page. -/
def pageOf (events : List AuditEvent) (page : ℕ) : List AuditEvent :=
  (events.drop ((page - 1) * auditPageSize)).take auditPageSize

/-- What the page of a search lists: the page asked for, or the last one. -/
def AuditHistoryService.listed (service : AuditHistoryService) (now : Moment)
    (f : AuditFilters) (log : AuditLog) : List AuditEvent :=
  let events := service.listing now f log
  pageOf events (min f.page (pageCount events.length))

/-- What a search with accepted filters needs to return a page. -/
structure AuditHistoryService.Answers (service : AuditHistoryService) (now : Moment)
    (f : AuditFilters) (log : AuditLog) : Prop where
  clock : auditRetentionDays * dayMicroseconds ≤ (now : ℤ)
  dateFrom : ∀ d ∈ f.dateFrom, d = .min → service.zone.utcoffset 0 ≤ 0
  dateTo : ∀ d ∈ f.dateTo, d ≠ .max
  userId : ∀ n ∈ f.userId, n < 2 ^ 63
  target : ∀ t ∈ f.target, IsEncodable t
  localTime : ∀ e ∈ service.listed now f log,
    IsMoment (e.occurredAt + service.zone.offsetAt e.occurredAt)

end Specification

section Predicates

variable {service : AuditHistoryService} {now : Moment} {f : AuditFilters} {log : AuditLog}
  {e : AuditEvent} {predicates : List AuditPredicate} {zone : TimeZone} {t : ℤ} {m : Moment}

/-- A moment is the text itself. -/
theorem moment_eq_ok : moment t = .ok m ↔ t = m := by
  unfold moment
  split_ifs with h
  · rw [Except.ok.injEq, Subtype.ext_iff]
  · refine iff_of_false nofun ?_
    rintro rfl
    exact h m.2

/-- A text is a moment if it is read as one. -/
theorem moment_isOk : (∃ m, moment t = .ok m) ↔ IsMoment t := by
  simp only [moment_eq_ok]
  exact ⟨fun ⟨m, hm⟩ => hm ▸ m.2, fun h => ⟨⟨t, h⟩, rfl⟩⟩

/-- A date starts within the calendar, unless it is the first one and the zone is ahead. -/
theorem isMoment_start {d : CalendarDate} :
    IsMoment (zone.start d.toordinal) ↔ (d = .min → zone.utcoffset 0 ≤ 0) := by
  have hpos := d.toordinal_pos
  have hle := d.toordinal_le
  have hoffset := abs_lt.mp (zone.utcoffset_lt (((d.toordinal : ℤ) - 1) * dayMicroseconds))
  unfold IsMoment TimeZone.start
  simp only
  by_cases hmin : d = .min
  · have hone : d.toordinal = 1 := CalendarDate.toordinal_eq_one.mpr hmin
    simp only [hmin, forall_const]
    rw [hmin] at hone hoffset
    rw [hone] at hoffset ⊢
    simp only [Nat.cast_one, sub_self, zero_mul, zero_sub] at hoffset ⊢
    unfold dayMicroseconds maxOrdinal at *
    omega
  · have hne : d.toordinal ≠ 1 := fun h => hmin (CalendarDate.toordinal_eq_one.mp h)
    refine iff_of_true ?_ fun h => absurd h hmin
    generalize zone.utcoffset _ = offset at hoffset
    unfold dayMicroseconds maxOrdinal at *
    omega

/-- The day after a date starts within the calendar, unless there is no such day. -/
theorem isMoment_start_succ {d : CalendarDate} :
    d.toordinal + 1 ≤ maxOrdinal ∧ IsMoment (zone.start (d.toordinal + 1)) ↔ d ≠ .max := by
  have hpos := d.toordinal_pos
  have hle := d.toordinal_le
  have hoffset := abs_lt.mp (zone.utcoffset_lt (((d.toordinal + 1 : ℕ) - 1 : ℤ) * dayMicroseconds))
  rw [Ne, ← CalendarDate.toordinal_eq_max]
  unfold IsMoment TimeZone.start
  simp only
  generalize zone.utcoffset _ = offset at hoffset
  unfold dayMicroseconds maxOrdinal at *
  push_cast
  omega

/-- **The predicates of a filter are what it asks for.** -/
theorem filterPredicates_holds (h : filterPredicates service.zone f = .ok predicates)
    (hkept : now - auditRetentionDays * dayMicroseconds ≤ (e.occurredAt : ℤ)) :
    predicates.all (·.holds service.like e) = true ↔ service.Lists now f e := by
  unfold filterPredicates at h
  obtain ⟨dateFrom, hfrom, h⟩ := except_bind_eq_ok.mp h
  obtain ⟨dateTo, hto, h⟩ := except_bind_eq_ok.mp h
  cases h
  have hfrom' : (∀ p ∈ (dateFrom.map AuditPredicate.occurredFrom).toList,
      p.holds service.like e = true) ↔
        ∀ d ∈ f.dateFrom, service.zone.start d.toordinal ≤ (e.occurredAt : ℤ) := by
    obtain ⟨hnone, rfl⟩ | ⟨d, m, hsome, hm, rfl⟩ := option_mapM_eq_ok.mp hfrom
    · simp [hnone]
    · simp [hsome, AuditPredicate.holds, moment_eq_ok.mp hm]
  have hto' : (∀ p ∈ (dateTo.map AuditPredicate.occurredBefore).toList,
      p.holds service.like e = true) ↔
        ∀ d ∈ f.dateTo, (e.occurredAt : ℤ) < service.zone.start (d.toordinal + 1) := by
    obtain ⟨hnone, rfl⟩ | ⟨d, m, hsome, hm, rfl⟩ := option_mapM_eq_ok.mp hto
    · simp [hnone]
    · obtain ⟨n, hn, hm⟩ := except_bind_eq_ok.mp hm
      unfold nextOrdinal at hn
      split_ifs at hn
      cases hn
      simp [hsome, AuditPredicate.holds, moment_eq_ok.mp hm]
  rw [List.all_eq_true]
  simp only [List.forall_mem_append, hfrom', hto']
  constructor
  · rintro ⟨⟨⟨⟨⟨⟨h₁, h₂⟩, h₃⟩, h₄⟩, h₅⟩, h₆⟩, h₇⟩
    refine ⟨hkept, h₁, h₂, fun a ha => ?_, fun a ha => ?_, fun a ha => ?_, fun a ha => ?_,
      fun a ha => ?_⟩
    · simpa [AuditPredicate.holds, Option.mem_def.mp ha] using h₃
    · simpa [AuditPredicate.holds, Option.mem_def.mp ha] using h₄
    · simpa [AuditPredicate.holds, Option.mem_def.mp ha] using h₅
    · simpa [AuditPredicate.holds, Option.mem_def.mp ha] using h₆
    · simpa [AuditPredicate.holds, Option.mem_def.mp ha, Option.any_eq_true] using h₇
  · rintro ⟨-, h₁, h₂, h₃, h₄, h₅, h₆, h₇⟩
    refine ⟨⟨⟨⟨⟨⟨h₁, h₂⟩, ?_⟩, ?_⟩, ?_⟩, ?_⟩, ?_⟩
    · simpa [AuditPredicate.holds] using h₃
    · simpa [AuditPredicate.holds] using h₄
    · simpa [AuditPredicate.holds] using h₅
    · simpa [AuditPredicate.holds] using h₆
    · simpa [AuditPredicate.holds, Option.any_eq_true] using h₇

/-- The predicates of a filter are computed if its dates start within the calendar. -/
theorem filterPredicates_isOk : (∃ ps, filterPredicates zone f = .ok ps) ↔
    (∀ d ∈ f.dateFrom, d = .min → zone.utcoffset 0 ≤ 0) ∧ ∀ d ∈ f.dateTo, d ≠ .max := by
  have hfrom : (∃ r, f.dateFrom.mapM (fun d => zone.midnight d.toordinal) = .ok r) ↔
      ∀ d ∈ f.dateFrom, d = .min → zone.utcoffset 0 ≤ 0 := by
    simp only [← isMoment_start, ← moment_isOk]
    cases f.dateFrom with
    | none => exact iff_of_true ⟨none, rfl⟩ nofun
    | some d =>
      simp only [option_mapM_eq_ok]
      constructor
      · rintro ⟨_, ⟨⟨⟩, -⟩ | ⟨_, m, ⟨⟩, hm, -⟩⟩ _ ⟨⟩
        exact ⟨m, hm⟩
      · intro h
        obtain ⟨m, hm⟩ := h d rfl
        exact ⟨_, .inr ⟨d, m, rfl, hm, rfl⟩⟩
  have hto : (∃ r, f.dateTo.mapM (fun d => do zone.midnight (← nextOrdinal d)) = .ok r) ↔
      ∀ d ∈ f.dateTo, d ≠ .max := by
    have hnext (d : CalendarDate) : (∃ m, (do zone.midnight (← nextOrdinal d)) = .ok m) ↔
        d ≠ .max := by
      rw [← isMoment_start_succ, ← moment_isOk]
      simp only [except_bind_eq_ok]
      unfold nextOrdinal
      split_ifs with hle
      · constructor
        · rintro ⟨m, _, ⟨⟩, hm⟩
          exact ⟨hle, m, hm⟩
        · rintro ⟨-, m, hm⟩
          exact ⟨m, _, rfl, hm⟩
      · exact iff_of_false (by rintro ⟨m, _, ⟨⟩, -⟩) fun h => hle h.1
    simp only [← hnext]
    cases f.dateTo with
    | none => exact iff_of_true ⟨none, rfl⟩ nofun
    | some d =>
      simp only [option_mapM_eq_ok]
      constructor
      · rintro ⟨_, ⟨⟨⟩, -⟩ | ⟨_, m, ⟨⟩, hm, -⟩⟩ _ ⟨⟩
        exact ⟨m, hm⟩
      · intro h
        obtain ⟨m, hm⟩ := h d rfl
        exact ⟨_, .inr ⟨d, m, rfl, hm, rfl⟩⟩
  rw [← hfrom, ← hto]
  unfold filterPredicates
  simp only [except_bind_eq_ok]
  constructor
  · rintro ⟨_, r, hr, r', hr', -⟩
    exact ⟨⟨r, hr⟩, r', hr'⟩
  · rintro ⟨⟨r, hr⟩, r', hr'⟩
    exact ⟨_, r, hr, r', hr', rfl⟩

/-- A pattern has UTF-8 if the text has. -/
theorem isEncodable_likePattern {t : Str} : IsEncodable (likePattern t) ↔ IsEncodable t := by
  have hreplace {old new t : Str} (hold : old ≠ []) (hold' : IsEncodable old)
      (hnew : IsEncodable new) :
      IsEncodable (Pattern.replace old new t) ↔ IsEncodable t := by
    constructor
    · intro h c hc
      by_cases hmem : c ∈ old
      · exact hold' c hmem
      · exact h c (Pattern.mem_replace hold hmem new hc)
    · exact fun h c hc => (Pattern.mem_substitute hc).elim (h c) (hnew c)
  have hpercent : Point.isSurrogate (.ofChar '%') = false := by decide
  unfold likePattern
  rw [isEncodable_cons, isEncodable_append, isEncodable_cons,
    hreplace (by decide +kernel) (isEncodable_str _) (isEncodable_str _),
    hreplace (by decide +kernel) (isEncodable_str _) (isEncodable_str _),
    hreplace (by decide +kernel) (isEncodable_str _) (isEncodable_str _)]
  simp [hpercent, IsEncodable]

/-- The code of an action can be encoded. -/
theorem isEncodable_of_isActionCode {t : Str} (h : isActionCode t = true) : IsEncodable t := by
  have hascii {c : Point} (hc : isActionPoint c = true) : c.isSurrogate = false := by
    simp only [isActionPoint, isUpperAscii, Bool.or_eq_true, Bool.and_eq_true, decide_eq_true_eq,
      beq_iff_eq] at hc
    have hunderscore : (Point.ofChar '_').val = 95 := by decide
    have hlt : c.val < 128 := by
      obtain (hc | hc) | rfl := hc <;> omega
    unfold Point.isSurrogate
    simp only [Bool.and_eq_false_iff, decide_eq_false_iff_not]
    omega
  cases t with
  | nil => cases h
  | cons c rest =>
    simp only [isActionCode, Bool.and_eq_true] at h
    obtain ⟨⟨hc, -⟩, hrest⟩ := h
    refine isEncodable_cons.mpr ⟨hascii ?_, fun d hd => hascii (List.all_eq_true.mp hrest d hd)⟩
    rw [isActionPoint, hc, Bool.true_or, Bool.true_or]

/-- A text can be bound to a query if it can be encoded. -/
theorem bind_text_isOk {t : Str} :
    (∃ u, refuseIf ((encodeUtf8 t).isNone) SearchError.notEncodable = .ok u) ↔ IsEncodable t := by
  simp only [refuseIf_eq_ok, exists_const, Bool.not_eq_true, Option.isNone_eq_false_iff]
  exact isSome_encodeUtf8

/-- What was accepted is taken by the database, unless a number or a text is not. -/
theorem bind_isOk (haccepted : f.IsAccepted) (h : filterPredicates zone f = .ok predicates) :
    (∃ us, predicates.mapM AuditPredicate.bind = .ok us) ↔
      (∀ n ∈ f.userId, n < 2 ^ 63) ∧ ∀ t ∈ f.target, IsEncodable t := by
  unfold filterPredicates at h
  obtain ⟨dateFrom, -, h⟩ := except_bind_eq_ok.mp h
  obtain ⟨dateTo, -, h⟩ := except_bind_eq_ok.mp h
  cases h
  have hresults : ∀ t ∈ auditResults, IsEncodable t := by
    simp [auditResults, isEncodable_str]
  have horigins : ∀ t ∈ auditOrigins, IsEncodable t := by
    simp [auditOrigins, isEncodable_str]
  have hoption {α : Type} {o : Option α} {g : α → AuditPredicate} {P : AuditPredicate → Prop} :
      (∀ p ∈ (o.map g).toList, P p) ↔ ∀ a ∈ o, P (g a) := by
    cases o <;> simp
  rw [list_mapM_isOk]
  simp only [List.forall_mem_append, hoption, AuditPredicate.bind, bind_text_isOk,
    isEncodable_likePattern]
  constructor
  · rintro ⟨⟨-, huser⟩, htarget⟩
    exact ⟨fun n hn => by simpa [refuseIf_eq_ok] using huser n hn, htarget⟩
  · rintro ⟨huser, htarget⟩
    refine ⟨⟨⟨⟨⟨⟨fun _ _ => ⟨(), trivial⟩, fun _ _ => ⟨(), trivial⟩⟩, fun t ht => ?_⟩,
      fun t ht => ?_⟩, fun t ht => ?_⟩, fun n hn => ?_⟩, htarget⟩
    · exact isEncodable_of_isActionCode (haccepted.action t ht).2
    · exact hresults t (haccepted.result t ht).2
    · exact horigins t (haccepted.origin t ht).2
    · exact ⟨(), refuseIf_eq_ok.mpr (Nat.not_le.mpr (huser n hn))⟩

end Predicates

section Select

variable {service : AuditHistoryService} {now : Moment} {f : AuditFilters}
  {log pruned : AuditLog} {e : AuditEvent} {selection : AuditSelection}

/-- Of two events one is listed before the other. -/
theorem isListedBefore_total (a b : AuditEvent) : isListedBefore a b ∨ isListedBefore b a := by
  unfold isListedBefore
  simp only [← Subtype.coe_lt_coe, Subtype.ext_iff]
  omega

/-- The order of the listing is transitive. -/
theorem isListedBefore_trans (a b c : AuditEvent) (hab : isListedBefore a b)
    (hbc : isListedBefore b c) : isListedBefore a c := by
  unfold isListedBefore at *
  simp only [← Subtype.coe_lt_coe, Subtype.ext_iff] at *
  omega

/-- **The events of a log have different ids, so that no two of them share a place.** -/
theorem isListing_listing : service.IsListing now f log (service.listing now f log) := by
  have hperm := List.perm_insertionSort isListedBefore
    (log.events.filter fun e => service.Lists now f e)
  have hids : ((service.listing now f log).map AuditEvent.id).Nodup :=
    ((hperm.map AuditEvent.id).nodup_iff).mpr (log.nodup.sublist (List.filter_sublist.map _))
  have hsorted : (service.listing now f log).Pairwise isListedBefore :=
    haveI : Std.Total isListedBefore := ⟨isListedBefore_total⟩
    haveI : IsTrans AuditEvent isListedBefore := ⟨isListedBefore_trans⟩
    List.pairwise_insertionSort isListedBefore _
  refine ⟨fun e => ?_, hids.of_map, ?_⟩
  · rw [AuditHistoryService.listing, hperm.mem_iff, List.mem_filter, decide_eq_true_eq]
  · refine (hsorted.and (List.pairwise_map.mp hids)).imp fun ⟨hbefore, hne⟩ => ?_
    exact hbefore.imp_right fun ⟨heq, hle⟩ => ⟨heq, Nat.lt_of_le_of_ne hle (Ne.symm hne)⟩

/-- **What the session of a search selects.** -/
theorem select_eq_ok (h : service.select now f log = .ok (pruned, selection)) :
    (∃ cutoff, retentionCutoff now = .ok cutoff ∧ pruned = log.prune cutoff) ∧
      selection.rows = service.listed now f log ∧
      selection.totalItems = (service.listing now f log).length ∧
      selection.totalPages = pageCount (service.listing now f log).length ∧
      selection.page = min f.page (pageCount (service.listing now f log).length) := by
  unfold AuditHistoryService.select at h
  obtain ⟨cutoff, hcutoff, h⟩ := except_bind_eq_ok.mp h
  obtain ⟨predicates, hpredicates, h⟩ := except_bind_eq_ok.mp h
  obtain ⟨_, -, h⟩ := except_bind_eq_ok.mp h
  have hmatching : (log.prune cutoff).events.filter
      (fun e => predicates.all (·.holds service.like e)) =
        log.events.filter fun e => service.Lists now f e := by
    show (log.events.filter _).filter _ = _
    rw [List.filter_filter]
    refine List.filter_congr fun e _ => ?_
    rw [Bool.eq_iff_iff, Bool.and_eq_true, decide_eq_true_eq, decide_eq_true_eq]
    have hcut := moment_eq_ok.mp hcutoff
    constructor
    · rintro ⟨hholds, hkept⟩
      exact (filterPredicates_holds hpredicates (hcut.le.trans hkept)).mp hholds
    · intro hlists
      exact ⟨(filterPredicates_holds hpredicates hlists.kept).mpr hlists,
        hcut.ge.trans hlists.kept⟩
  have hlength := List.length_insertionSort isListedBefore
    (log.events.filter fun e => service.Lists now f e)
  have hcount : max 1 (Binary64.ceil (Binary64.quotient
      (log.events.filter fun e => service.Lists now f e).length auditPageSize)) =
        pageCount (service.listing now f log).length := by
    have hlt : (log.events.filter fun e => service.Lists now f e).length < 2 ^ 53 :=
      Nat.lt_of_le_of_lt (List.length_filter_le _ _) (log.length_lt.trans_le (by decide))
    rw [Binary64.ceil_quotient (by decide) (by decide) hlt, pageCount, AuditHistoryService.listing,
      hlength]
  rw [hmatching] at h
  simp only [hcount] at h
  cases h
  exact ⟨⟨cutoff, hcutoff, rfl⟩, rfl, hlength.symm, rfl, rfl⟩

/-- The session of a search with accepted filters does not raise, unless a date or a value is out
of range. -/
theorem select_isOk (haccepted : f.IsAccepted) : (∃ r, service.select now f log = .ok r) ↔
    auditRetentionDays * dayMicroseconds ≤ (now : ℤ) ∧
      ((∀ d ∈ f.dateFrom, d = .min → service.zone.utcoffset 0 ≤ 0) ∧ ∀ d ∈ f.dateTo, d ≠ .max) ∧
      (∀ n ∈ f.userId, n < 2 ^ 63) ∧ ∀ t ∈ f.target, IsEncodable t := by
  have hcutoff : (∃ cutoff, retentionCutoff now = .ok cutoff) ↔
      auditRetentionDays * dayMicroseconds ≤ (now : ℤ) := by
    have hnow := now.2
    unfold retentionCutoff
    rw [moment_isOk]
    unfold IsMoment auditRetentionDays dayMicroseconds at *
    omega
  rw [← hcutoff, ← filterPredicates_isOk]
  unfold AuditHistoryService.select
  simp only [except_bind_eq_ok]
  constructor
  · rintro ⟨_, cutoff, hcut, predicates, hpredicates, us, hbind, -⟩
    exact ⟨⟨cutoff, hcut⟩, ⟨predicates, hpredicates⟩,
      (bind_isOk haccepted hpredicates).mp ⟨us, hbind⟩⟩
  · rintro ⟨⟨cutoff, hcut⟩, ⟨predicates, hpredicates⟩, hvalues⟩
    obtain ⟨us, hbind⟩ := (bind_isOk haccepted hpredicates).mpr hvalues
    exact ⟨_, cutoff, hcut, predicates, hpredicates, us, hbind, rfl⟩

end Select

section Search

/-- Clean details can be shown. -/
theorem shownDetails_isOk {details : Option (List (Str × Detail))}
    (h : ∀ entries ∈ details, Detail.CleanEntries entries) : ∃ w, shownDetails details = .ok w := by
  unfold shownDetails
  split
  · exact ⟨none, rfl⟩
  · exact ⟨none, rfl⟩
  · obtain ⟨t, ht, -⟩ := (Detail.mapping _).isClean_iff.mpr (h _ rfl)
    rw [ht]
    exact ⟨some t, rfl⟩

variable [Alphanumeric] {service : AuditHistoryService} {now : Moment} {f : AuditFilters}
  {raw : RawFilters} {log : AuditLog} {e : AuditEvent} {users : List (ℕ × Str)}

/-- A stored event is shown if its local time is within the calendar. -/
theorem view_isOk : (∃ v, service.view users e = .ok v) ↔
    IsMoment (e.occurredAt + service.zone.offsetAt e.occurredAt) := by
  have hdetails : ∃ details, redactAuditDetails service.arranged e.details = .ok details ∧
      ∀ entries ∈ details, Detail.CleanEntries entries := by
    cases he : e.details with
    | none => exact ⟨none, rfl, nofun⟩
    | some entries =>
      obtain ⟨redacted, hredacted⟩ := exists_redacted service.arranged (e.isClean entries he)
      refine ⟨some redacted, hredacted, ?_⟩
      rintro _ ⟨⟩
      exact cleanEntries_of_redacted service.arranged hredacted
  obtain ⟨details, hredacted, hclean⟩ := hdetails
  obtain ⟨written, hwritten⟩ := shownDetails_isOk hclean
  unfold AuditHistoryService.view
  rw [← moment_isOk]
  simp only [except_bind_eq_ok, hredacted]
  constructor
  · rintro ⟨_, _, -, m, hm, -⟩
    exact ⟨m, hm⟩
  · rintro ⟨m, hm⟩
    exact ⟨_, details, rfl, m, hm, written, hwritten, rfl⟩

/-- **When a search with accepted filters returns.** -/
theorem search_returns_iff (h : parseAuditFilters raw = .ok f) :
    (∃ page, (service.search now f log).2 = .ok page) ↔ service.Answers now f log := by
  have haccepted := isAccepted_of_parse h
  have hsession : (∃ page, (service.search now f log).2 = .ok page) ↔
      (∃ r, service.select now f log = .ok r) ∧ ∀ e ∈ service.listed now f log,
        IsMoment (e.occurredAt + service.zone.offsetAt e.occurredAt) := by
    unfold AuditHistoryService.search
    split
    · rename_i error hselect
      refine iff_of_false nofun ?_
      rintro ⟨⟨r, hr⟩, -⟩
      rw [hselect] at hr
      cases hr
    · rename_i pruned selection hselect
      obtain ⟨-, hrows, -⟩ := select_eq_ok hselect
      have hview (e : AuditEvent) : (∃ v, service.view pruned.users e = .ok v) ↔
          IsMoment (e.occurredAt + service.zone.offsetAt e.occurredAt) := view_isOk
      simp only [except_bind_eq_ok, ← hrows, ← hview, ← list_mapM_isOk]
      constructor
      · rintro ⟨_, events, hevents, -⟩
        exact ⟨⟨_, hselect⟩, events, hevents⟩
      · rintro ⟨-, events, hevents⟩
        exact ⟨_, events, hevents, rfl⟩
  rw [hsession, select_isOk haccepted]
  constructor
  · rintro ⟨⟨hclock, ⟨hfrom, hto⟩, huser, htarget⟩, hlocal⟩
    exact ⟨hclock, hfrom, hto, huser, htarget, hlocal⟩
  · rintro ⟨hclock, hfrom, hto, huser, htarget, hlocal⟩
    exact ⟨⟨hclock, ⟨hfrom, hto⟩, huser, htarget⟩, hlocal⟩

end Search

section LastDate

/-- A history shown in UTC, with nothing to protect. -/
def utcHistory : AuditHistoryService where
  zone := ⟨str "UTC", fun _ => 0, fun _ => 0, fun _ => by decide, fun _ => by decide⟩
  like := fun _ _ => false
  sensitive := []
  arranged := .none

/-- A day of 2026. -/
def today : Moment := ⟨739617 * dayMicroseconds, by decide⟩

/-- A login, of which there may be many at one time. -/
def storedLogin (id : ℕ) : AuditEvent where
  id := id
  occurredAt := today
  action := str "LOGIN"
  result := str "SUCCESS"
  origin := str "ADMINISTRATOR"
  userId := some 1
  jobId := none
  target := none
  reason := none
  durationMs := some 1250
  details := none
  isClean := nofun

/-- So many logins. -/
def storedLogins (n : ℕ) (h : n < maxTableRows) : AuditLog where
  events := (List.range n).map storedLogin
  users := [(1, str "admin")]
  nodup := by
    rw [List.map_map]
    exact (List.map_id (List.range n)).symm ▸ List.nodup_range
  length_lt := by rwa [List.length_map, List.length_range]

/-- The logins of a user up to a date. -/
theorem search_returns_iff_login : ∃ f,
    parseAuditFilters (.ofQuery [(str "user_id", str "1"), (str "date_to", str "2026-01-01")]) =
      .ok f ∧
    ((∃ page, (@AuditHistoryService.search .asciiOnly utcHistory today f
      (storedLogins 2 (by decide))).2 = .ok page) ↔ utcHistory.Answers today f (storedLogins 2 (by decide))) := by
  obtain ⟨f, hf, -⟩ := exists_ok (x := parseAuditFilters
    (.ofQuery [(str "user_id", str "1"), (str "date_to", str "2026-01-01")]))
    (p := fun _ => true) (by decide +kernel)
  exact ⟨f, hf, @search_returns_iff .asciiOnly _ _ _ _ _ hf⟩

/-- The last date of the calendar has no day after it. -/
theorem search_lastDate : ∃ (_ : Alphanumeric) (service : AuditHistoryService) (now : Moment)
    (log : AuditLog) (raw : RawFilters) (f : AuditFilters), parseAuditFilters raw = .ok f ∧
      ¬∃ page, (service.search now f log).2 = .ok page := by
  obtain ⟨f, hf, hsearch⟩ := exists_ok
    (x := parseAuditFilters (.ofQuery [(str "date_to", str "9999-12-31")]))
    (p := fun f => (@AuditHistoryService.search .asciiOnly utcHistory today f
      (storedLogins 2 (by decide))).2.toOption.isNone) (by decide +kernel)
  refine ⟨.asciiOnly, utcHistory, today, storedLogins 2 (by decide), _, f, hf, ?_⟩
  rintro ⟨page, hpage⟩
  rw [hpage] at hsearch
  cases hsearch

end LastDate

end PalworldManager
