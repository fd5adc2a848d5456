/-
# The automatic backup

`backups/scheduler.py`.  The worker calls `schedule_daily_backup` again and again; a call that
is due enqueues a job, unless the marker of the last one holds the local date already.  What the
local time is at an instant is up to the time zone, which may be any function here, and a
moment is a number of microseconds.

The marker is compared for equality only.  It keeps the dates apart as long as no call that is
due falls on a date before it (`ScheduleRun.onceADate`); a clock that steps back over midnight
is enough for a date to have two jobs (`ScheduleRun.twiceADate`).
-/

import PalworldManager.Dates
import PalworldManager.Requests

namespace PalworldManager

open Effects Text

/-- A local date and the microseconds of its day. -/
structure LocalDateTime where
  date : Date
  time : ℕ

/-- `BACKUP_ENABLED_KEY`. -/
def backupEnabledKey : String := "backup_enabled"

/-- `BACKUP_TIME_KEY`. -/
def backupTimeKey : String := "backup_time"

/-- `TIMEZONE_KEY`. -/
def timezoneKey : String := "timezone"

/-- `LAST_SCHEDULED_DATE_KEY`. -/
def lastScheduledDateKey : String := "backup_last_scheduled_local_date"

/-- `_boolean_setting`. -/
def booleanSetting (s : World) (key : String) (default : Bool) : Except Exn Bool :=
  match s.settings.lookup key with
  | none => .ok default
  | some (.bool b) => .ok b
  | some _ => .error (.fault .value)

/-- `_timezone_setting`. -/
def timezoneSetting (s : World) : Except Exn String :=
  match (s.settings.lookup timezoneKey).getD (.str "America/Sao_Paulo") with
  | .str value => if s.timezones.contains value then .ok value else .error (.fault .value)
  | _ => .error (.fault .value)

/-- Two digits and what follows them. -/
def twoDigits : List Char → Option (ℕ × List Char)
  | a :: b :: rest =>
    if a.isDigit && b.isDigit then some ((a.toNat - 48) * 10 + (b.toNat - 48), rest) else none
  | _ => none

/-- A separator, where there are separators. -/
def timeSeparator (separated : Bool) (t : List Char) : Option (List Char) :=
  match separated, t with
  | false, t => some t
  | true, ':' :: t => some t
  | true, _ => none

/-- The numbers of a time after its hour, at most `n`, and what follows them. -/
def timeParts (separated : Bool) : ℕ → List Char → Option (List ℕ × List Char)
  | 0, rest => some ([], rest)
  | _, [] => some ([], [])
  | n + 1, rest => do
    let rest ← timeSeparator separated rest
    let (value, rest) ← twoDigits rest
    let (values, rest) ← timeParts separated n rest
    pure (value :: values, rest)

/-- The microseconds of a fraction: six digits count. -/
def fraction : List Char → Option ℕ
  | [] => some 0
  | c :: digits =>
    if (c == '.' || c == ',') && !digits.isEmpty && digits.all Char.isDigit then
      some (((digits ++ List.replicate 6 '0').take 6).foldl (fun n d => n * 10 + (d.toNat - 48)) 0)
    else none

/-- `time.fromisoformat` of a text without a zone: the hour, the minute, the second and the
microsecond.  The grammar is the documented one; the interpreter also takes some texts outside
it, with a part too many that is zero (`04.0`, `04:00:00:00`). -/
def timeFromIsoformat (t : List Char) : Option (ℕ × ℕ × ℕ × ℕ) := do
  let t := if t.head? = some 'T' then t.tail else t
  let (hour, rest) ← twoDigits t
  let (values, rest) ← timeParts (rest.head? == some ':') 2 rest
  let microsecond ← fraction rest
  let minute := values.getD 0 0
  let second := values.getD 1 0
  if hour < 24 ∧ minute < 60 ∧ second < 60 then some (hour, minute, second, microsecond) else none

/-- `_time_setting`, in microseconds.  A text with a zone is refused, be it well formed or not. -/
def timeSetting (s : World) : Except Exn ℕ :=
  match (s.settings.lookup backupTimeKey).getD (.str "04:00") with
  | .str value =>
    if value.toList.any fun c => c == '-' || c == '+' || c == 'Z' then .error (.fault .value)
    else
      match timeFromIsoformat value.toList with
      | some (hour, minute, 0, 0) => .ok ((hour * 60 + minute) * 60000000)
      | _ => .error (.fault .value)
  | _ => .error (.fault .value)

section Scheduler

variable (zone : String → ℕ → LocalDateTime)

/-- `schedule_daily_backup`, in its session. -/
def scheduleDailyBackup (now : ℕ) (s : World) : Except Exn (Bool × World) := do
  let enabled ← booleanSetting s backupEnabledKey true
  if !enabled then pure (false, s)
  else do
    let timezone ← timezoneSetting s
    let scheduledTime ← timeSetting s
    let localNow := zone timezone now
    if localNow.time < scheduledTime then pure (false, s)
    else
      let localDate := localNow.date.isoformat
      if s.settings.lookup lastScheduledDateKey = some (.str localDate) then pure (false, s)
      else
        match enqueueLocalBackup "AUTOMATIC" s with
        | .error (.conflict _) => pure (false, s)
        | .error e => throw e
        | .ok (_, s') =>
          pure (true,
            { s' with settings := (lastScheduledDateKey, .str localDate) :: s'.settings })

/-- The local date at an instant, in the time zone of the settings. -/
def localDate (s : World) (now : ℕ) : Option Date :=
  (timezoneSetting s).toOption.map fun timezone => (zone timezone now).date

/-- A call comes up to the marker: backups are enabled and the time of the day has come. -/
def BackupDue (s : World) (now : ℕ) : Prop :=
  booleanSetting s backupEnabledKey true = .ok true ∧ ∃ timezone scheduledTime,
    timezoneSetting s = .ok timezone ∧ timeSetting s = .ok scheduledTime ∧
      scheduledTime ≤ (zone timezone now).time

/-- A call that is due does not fall on a date before the marker. -/
def InOrder (s : World) (now : ℕ) : Prop :=
  BackupDue zone s now → ∀ marked date,
    s.settings.lookup lastScheduledDateKey = some (.str (Date.isoformat marked)) →
      localDate zone s now = some date → marked.number ≤ date.number

/-- A call that returned: the instant, the local date, and whether it enqueued a job. -/
structure ScheduleEvent where
  instant : ℕ
  date : Option Date
  enqueued : Bool
  deriving DecidableEq

/-- The settings that the scheduler reads. -/
def SameSchedule (s s' : World) : Prop :=
  s'.timezones = s.timezones ∧
    ∀ key ∈ [backupEnabledKey, backupTimeKey, timezoneKey, lastScheduledDateKey],
      s'.settings.lookup key = s.settings.lookup key

/-- The runs of the scheduler at non-decreasing instants: calls that meet a condition, with
anything between them that leaves the settings alone. -/
inductive ScheduleRun (condition : World → ℕ → Prop) : List ScheduleEvent → World → Prop
  | start (s : World) : ScheduleRun condition [] s
  | call {evs s s' now enqueued} : ScheduleRun condition evs s → (∀ e ∈ evs, e.instant ≤ now) →
      condition s now → scheduleDailyBackup zone now s = .ok (enqueued, s') →
      ScheduleRun condition (evs ++ [⟨now, localDate zone s now, enqueued⟩]) s'
  | other {evs s s'} : ScheduleRun condition evs s → SameSchedule s s' →
      ScheduleRun condition evs s'

/-- No two jobs were enqueued on one local date. -/
def OnceADate (evs : List ScheduleEvent) : Prop :=
  evs.Pairwise fun x y => x.enqueued = true → y.enqueued = true → x.date ≠ y.date

variable {zone}

/-- **All that a call can do.** -/
theorem scheduleDailyBackup_eq_ok {now : ℕ} {s s' : World} {enqueued : Bool}
    (h : scheduleDailyBackup zone now s = .ok (enqueued, s')) :
    (enqueued = false ∧ s' = s) ∨
      (enqueued = true ∧ BackupDue zone s now ∧ ∃ date, localDate zone s now = some date ∧
        s.settings.lookup lastScheduledDateKey ≠ some (.str date.isoformat) ∧
        s'.settings = (lastScheduledDateKey, .str date.isoformat) :: s.settings ∧
        s'.timezones = s.timezones) := by
  unfold scheduleDailyBackup at h
  obtain ⟨enabled, henabled, h⟩ := except_bind_eq_ok.mp h
  cases enabled with
  | false =>
    obtain ⟨rfl, rfl⟩ := Prod.mk.inj (Except.ok.inj h)
    exact .inl ⟨rfl, rfl⟩
  | true =>
    rw [Bool.not_true, if_neg Bool.false_ne_true] at h
    obtain ⟨timezone, htimezone, h⟩ := except_bind_eq_ok.mp h
    obtain ⟨scheduledTime, htime, h⟩ := except_bind_eq_ok.mp h
    by_cases hdue : (zone timezone now).time < scheduledTime
    · rw [if_pos hdue] at h
      obtain ⟨rfl, rfl⟩ := Prod.mk.inj (Except.ok.inj h)
      exact .inl ⟨rfl, rfl⟩
    · rw [if_neg hdue] at h
      by_cases hmarked : s.settings.lookup lastScheduledDateKey =
          some (.str (zone timezone now).date.isoformat)
      · rw [if_pos hmarked] at h
        obtain ⟨rfl, rfl⟩ := Prod.mk.inj (Except.ok.inj h)
        exact .inl ⟨rfl, rfl⟩
      · rw [if_neg hmarked] at h
        split at h
        · obtain ⟨rfl, rfl⟩ := Prod.mk.inj (Except.ok.inj h)
          exact .inl ⟨rfl, rfl⟩
        · cases h
        · rename_i j s₁ hs₁
          obtain ⟨rfl, rfl⟩ := Prod.mk.inj (Except.ok.inj h)
          obtain ⟨hsettings, htimezones⟩ : s₁.settings = s.settings ∧
              s₁.timezones = s.timezones := by
            unfold enqueueLocalBackup insertJob at hs₁
            rw [if_neg (by decide)] at hs₁
            split at hs₁
            · cases hs₁
            · obtain ⟨-, rfl⟩ := Prod.mk.inj (Except.ok.inj hs₁)
              exact ⟨rfl, rfl⟩
          refine .inr ⟨rfl, ⟨henabled, timezone, scheduledTime, htimezone, htime,
            Nat.le_of_not_lt hdue⟩, (zone timezone now).date, ?_, hmarked, ?_, htimezones⟩
          · rw [localDate, htimezone]
            rfl
          · rw [hsettings]

/-- The date of the last job is in the marker, and none is after it. -/
def MarkerLast (evs : List ScheduleEvent) (s : World) : Prop :=
  ∀ e ∈ evs, e.enqueued = true → ∃ date marked, e.date = some date ∧
    s.settings.lookup lastScheduledDateKey = some (.str (Date.isoformat marked)) ∧
      date.number ≤ marked.number

/-- **One call**: a date that a job was enqueued on does not come again. -/
theorem onceADate_call {evs : List ScheduleEvent} {s s' : World} {now : ℕ} {enqueued : Bool}
    (hevs : OnceADate evs) (hlast : MarkerLast evs s) (horder : InOrder zone s now)
    (h : scheduleDailyBackup zone now s = .ok (enqueued, s')) :
    OnceADate (evs ++ [⟨now, localDate zone s now, enqueued⟩]) ∧
      MarkerLast (evs ++ [⟨now, localDate zone s now, enqueued⟩]) s' := by
  rcases scheduleDailyBackup_eq_ok h with ⟨rfl, rfl⟩ |
    ⟨rfl, hdue, date, hdate, hmarker, hsettings, -⟩
  · refine ⟨List.pairwise_append.mpr ⟨hevs, List.pairwise_singleton _ _, ?_⟩, fun e he => ?_⟩
    · rintro x - y hy - henqueued
      rw [List.mem_singleton.mp hy] at henqueued
      cases henqueued
    · rcases List.mem_append.mp he with he | he
      · exact hlast e he
      · rw [List.mem_singleton.mp he]
        exact fun henqueued => by cases henqueued
  · have hmarked : s'.settings.lookup lastScheduledDateKey = some (.str date.isoformat) := by
      rw [hsettings, List.lookup_cons_self]
    -- the marker is a date, not this one, and not after it
    have hbefore (e : ScheduleEvent) (he : e ∈ evs) (henqueued : e.enqueued = true) :
        ∃ d, e.date = some d ∧ d.number < date.number := by
      obtain ⟨d, marked, hd, hm, hle⟩ := hlast e he henqueued
      have hle' := horder hdue marked date hm hdate
      have hne : marked.number ≠ date.number := fun heq =>
        hmarker (Date.number_inj heq ▸ hm)
      exact ⟨d, hd, by omega⟩
    refine ⟨List.pairwise_append.mpr ⟨hevs, List.pairwise_singleton _ _, ?_⟩, fun e he => ?_⟩
    · intro x hx y hy hx' _
      obtain ⟨d, hd, hlt⟩ := hbefore x hx hx'
      rw [List.mem_singleton.mp hy, hd, hdate]
      intro heq
      rw [Option.some.inj heq] at hlt
      exact Nat.lt_irrefl _ hlt
    · intro henqueued
      rcases List.mem_append.mp he with he | he
      · obtain ⟨d, hd, hlt⟩ := hbefore e he henqueued
        exact ⟨d, date, hd, hmarked, hlt.le⟩
      · rw [List.mem_singleton.mp he]
        exact ⟨date, date, hdate, hmarked, le_rfl⟩

/-- **At most one automatic backup per local date**, where no call that is due falls on a date
before the one marked last. -/
theorem ScheduleRun.onceADate {evs : List ScheduleEvent} {s : World}
    (h : ScheduleRun zone (InOrder zone) evs s) : OnceADate evs := by
  suffices hboth : OnceADate evs ∧ MarkerLast evs s from hboth.1
  induction h with
  | start s => exact ⟨List.Pairwise.nil, fun e he => absurd he List.not_mem_nil⟩
  | call _ _ horder hcall ih => exact onceADate_call ih.1 ih.2 horder hcall
  | other _ hsame ih =>
    refine ⟨ih.1, fun e he henqueued => ?_⟩
    obtain ⟨date, marked, hdate, hmarked, hle⟩ := ih.2 e he henqueued
    exact ⟨date, marked, hdate, (hsame.2 _ (by simp)).trans hmarked, hle⟩

/-- A call that is evaluated to enqueue a job, and the settings that it leaves. -/
theorem exists_enqueued {now : ℕ} {s : World} {date : Date}
    (h : (scheduleDailyBackup zone now s).toOption.any (fun r => r.1) = true)
    (hdate : localDate zone s now = some date) :
    ∃ s', scheduleDailyBackup zone now s = .ok (true, s') ∧
      s'.settings = (lastScheduledDateKey, .str date.isoformat) :: s.settings ∧
      s'.timezones = s.timezones := by
  obtain ⟨⟨enqueued, s'⟩, hcall, henqueued⟩ := exists_ok h
  simp only at henqueued
  subst henqueued
  rcases scheduleDailyBackup_eq_ok hcall with ⟨hfalse, -⟩ |
    ⟨-, -, date', hdate', -, hsettings, htimezones⟩
  · cases hfalse
  · obtain rfl := Option.some.inj (hdate'.symm.trans hdate)
    exact ⟨s', hcall, hsettings, htimezones⟩

end Scheduler

/-- Saturday, 28 October 2006. -/
def saturday : Date := ⟨2006, 10, 28, by decide, by decide, by decide⟩

/-- Sunday, 29 October 2006. -/
def sunday : Date := ⟨2006, 10, 29, by decide, by decide, by decide⟩

/-- The local time of Newfoundland, from the midnight before that Saturday: at one minute past
the next midnight the clock steps back to 23:01. -/
def newfoundland (_ : String) (instant : ℕ) : LocalDateTime :=
  let shown := if instant < 86460000000 then instant else instant - 3600000000
  if shown < 86400000000 then ⟨saturday, shown⟩ else ⟨sunday, shown - 86400000000⟩

/-- A host in Newfoundland, no jobs, backups at midnight, and what else is set. -/
def midnightWorld (settings : Dict) : World where
  jobs := Table.empty
  lock := none
  heartbeat := none
  backups := Table.empty
  settings := settings ++ [("backup_time", .str "00:00"), ("timezone", .str "America/St_Johns")]
  timezones := ["America/St_Johns"]
  localFiles := fun _ => none
  remoteFiles := fun _ => none
  now := 0

def saturdayMarked : Dict := [(lastScheduledDateKey, .str saturday.isoformat)]

def sundayMarked : Dict := (lastScheduledDateKey, .str sunday.isoformat) :: saturdayMarked

/-- Calls at midnight and half a minute after the next midnight. -/
def twoMidnights : List ScheduleEvent :=
  [⟨0, some saturday, true⟩, ⟨86430000000, some sunday, true⟩]

/-- The schedule is told by the settings and the time zones. -/
theorem sameSchedule_midnight {s : World} (settings : Dict)
    (hsettings : s.settings = (midnightWorld settings).settings)
    (htimezones : s.timezones = ["America/St_Johns"]) : SameSchedule s (midnightWorld settings) :=
  ⟨htimezones.symm, fun key _ => by rw [hsettings]⟩

/-- Both calls enqueue a job, on two dates. -/
theorem scheduleRun_twoMidnights {condition : World → ℕ → Prop}
    (h₀ : condition (midnightWorld []) 0)
    (h₁ : condition (midnightWorld saturdayMarked) 86430000000) :
    ScheduleRun newfoundland condition twoMidnights (midnightWorld sundayMarked) := by
  have hdate₁ : localDate newfoundland (midnightWorld []) 0 = some saturday := by
    decide
  have hdate₂ : localDate newfoundland (midnightWorld saturdayMarked) 86430000000 =
      some sunday := by decide
  obtain ⟨s₁, hcall₁, hsettings₁, htimezones₁⟩ := exists_enqueued (by decide) hdate₁
  obtain ⟨s₂, hcall₂, hsettings₂, htimezones₂⟩ := exists_enqueued (by decide) hdate₂
  have hrun₁ := ((ScheduleRun.start (midnightWorld [])).call (by simp) h₀ hcall₁).other
    (sameSchedule_midnight saturdayMarked hsettings₁ htimezones₁)
  have hrun₂ := (hrun₁.call (by simp) h₁ hcall₂).other
    (sameSchedule_midnight sundayMarked hsettings₂ htimezones₂)
  rwa [hdate₁, hdate₂] at hrun₂

/-- Two midnights of Newfoundland in order: one backup for each date. -/
theorem ScheduleRun.onceADate_twoMidnights :
    ScheduleRun newfoundland (InOrder newfoundland) twoMidnights (midnightWorld sundayMarked) ∧
      OnceADate twoMidnights := by
  have hrun : ScheduleRun newfoundland (InOrder newfoundland) twoMidnights
      (midnightWorld sundayMarked) := by
    refine scheduleRun_twoMidnights (fun _ marked date hmarked _ => ?_)
      fun _ marked date hmarked hdate => ?_
    · have hnone : (midnightWorld []).settings.lookup lastScheduledDateKey = none := by
        decide
      rw [hnone] at hmarked
      cases hmarked
    · have hmarker : (midnightWorld saturdayMarked).settings.lookup lastScheduledDateKey =
          some (.str saturday.isoformat) := List.lookup_cons_self
      rw [hmarker] at hmarked
      obtain rfl := Date.isoformat_inj (Value.str.inj (Option.some.inj hmarked))
      have hsunday : localDate newfoundland (midnightWorld saturdayMarked) 86430000000 =
          some sunday := by decide
      obtain rfl := Option.some.inj (hsunday.symm.trans hdate)
      decide
  exact ⟨hrun, ScheduleRun.onceADate hrun⟩

/-- Two minutes after the second midnight the clock shows Saturday again, and so does a second
job. -/
theorem ScheduleRun.twiceADate :
    ¬∀ (zone : String → ℕ → LocalDateTime) (evs : List ScheduleEvent) (s : World),
      ScheduleRun zone (fun _ _ => True) evs s → OnceADate evs := by
  intro honce
  have hdate : localDate newfoundland (midnightWorld sundayMarked) 86520000000 =
      some saturday := by decide
  obtain ⟨s, hcall, -, -⟩ := exists_enqueued (by decide) hdate
  have hmidnights : ScheduleRun newfoundland (fun _ _ => True) twoMidnights
      (midnightWorld sundayMarked) := scheduleRun_twoMidnights trivial trivial
  have htwice := honce _ _ _ (hmidnights.call (by decide) trivial hcall)
  rw [hdate] at htwice
  revert htwice
  unfold OnceADate
  decide

end PalworldManager
