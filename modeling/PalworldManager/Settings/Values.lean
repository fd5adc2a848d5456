/-
# The operational settings with every field

`ManagerSettingsValues` and `_settings_version` (`manager_settings/service.py`).  A
`ManagerSettings` is what the validation lets through, so that it passes the validation
again as it is (`modelValidate_entries`).  Its version is the digest of a JSON document,
and the document tells two settings apart (`payload_inj`): each member is written so that
what follows it is told apart from it.
-/

import PalworldManager.Settings
import PalworldManager.Text.Decimal
import PalworldManager.Text.Json
import PalworldManager.Text.Utf8

namespace PalworldManager

open Text

/-- `ZoneInfo(key)` finds a time zone of the host; the empty key is no normalized path. -/
def zoneInfo (timezones : List String) (key : String) : Bool := key ≠ "" && timezones.contains key

/-- A time zone as `validate_timezone` returns it. -/
structure IsTimezone (timezones : List String) (name : String) : Prop where
  stripped : strip name.toList = name.toList
  length_le : name.length ≤ 100
  known : zoneInfo timezones name = true

/-- `ManagerSettingsValues`: values that passed the validation. -/
structure ManagerSettings (timezones : List String) where
  timezone : {name : String // IsTimezone timezones name}
  backupEnabled : Bool
  backupTime : {t : String // isBackupTime t.toList = true}
  localBackupRetention : Within 1 30
  driveBackupRetention : Within 1 100
  metricsIntervalSeconds : Within 1 60
  assistedShutdownDefaultMinutes : CountdownMinutes
  startTimeoutSeconds : Within 1 600
  restartTimeoutSeconds : Within 1 600
  stopTimeoutSeconds : Within 1 300
  diskWarningGb : Within 1 1024
  diskCriticalGb : Within 1 1024
  critical_lt_warning : diskCriticalGb.1 < diskWarningGb.1
  deriving DecidableEq

section Validation

variable {timezones : List String} {literal : CountdownLiteral}

/-- `value.strip()`. -/
def stripped (t : String) : String := String.ofList (strip t.toList)

/-- What is stripped is not stripped again. -/
theorem stripped_stripped (t : String) : strip (stripped t).toList = (stripped t).toList := by
  rw [stripped, String.toList_ofList, strip_strip]

/-- What is stripped is no longer. -/
theorem length_stripped_le (t : String) : (stripped t).length ≤ t.length := by
  rw [stripped, String.length_ofList, ← String.length_toList]
  exact Text.length_strip_le _

/-- `Field(min_length=1, max_length=100)` and `validate_timezone`. -/
def validateTimezone (timezones : List String) :
    Value → Option {name : String // IsTimezone timezones name}
  | .str z =>
      if h : (1 ≤ z.length ∧ z.length ≤ 100) ∧ zoneInfo timezones (stripped z) = true then
        some ⟨stripped z, stripped_stripped z, (length_stripped_le z).trans h.1.2, h.2⟩
      else none
  | _ => none

/-- `bool` of a strict model. -/
def Value.asBool : Value → Option Bool
  | .bool b => some b
  | _ => none

/-- `validate_backup_time`. -/
def validateBackupTime : Value → Option {t : String // isBackupTime t.toList = true}
  | .str t => if h : isBackupTime t.toList = true then some ⟨t, h⟩ else none
  | _ => none

/-- The validation of `Literal[0, 1, 5, 10]` by the library: each of the four stands for itself,
and what else is let through equals the one that is returned. -/
structure CountdownLiteral where
  validate : Value → Option CountdownMinutes
  literal : ∀ n : CountdownMinutes, validate (.int n.1) = some n
  equal : ∀ v n, validate v = some n → v.pyEq (.int n.1) = true

/-- A validation that lets all through that equals one of the four. -/
def CountdownLiteral.byEquality : CountdownLiteral where
  validate := Value.countdownMinutes
  literal := by decide
  equal v n h := by
    rw [Value.countdownMinutes] at h
    simpa using List.find?_some h

/-- The validation by equality is that of the jobs. -/
theorem CountdownLiteral.byEquality_validate (v : Value) :
    byEquality.validate v = v.countdownMinutes := rfl

/-- `ManagerSettingsValues.model_validate`. -/
def modelValidate (literal : CountdownLiteral) (timezones : List String) (d : Dict) :
    Option (ManagerSettings timezones) := do
  let timezone ← validateTimezone timezones (d.value "timezone")
  let backupEnabled ← (d.value "backup_enabled").asBool
  let backupTime ← validateBackupTime (d.value "backup_time")
  let localBackupRetention ← (d.value "local_backup_retention").natIn 1 30
  let driveBackupRetention ← (d.value "drive_backup_retention").natIn 1 100
  let metricsIntervalSeconds ← (d.value "metrics_interval_seconds").natIn 1 60
  let assistedShutdownDefaultMinutes ←
    literal.validate (d.value "assisted_shutdown_default_minutes")
  let startTimeoutSeconds ← (d.value "start_timeout_seconds").natIn 1 600
  let restartTimeoutSeconds ← (d.value "restart_timeout_seconds").natIn 1 600
  let stopTimeoutSeconds ← (d.value "stop_timeout_seconds").natIn 1 300
  let diskWarningGb ← (d.value "disk_warning_gb").natIn 1 1024
  let diskCriticalGb ← (d.value "disk_critical_gb").natIn 1 1024
  if h : diskCriticalGb.1 < diskWarningGb.1 then
    some { timezone, backupEnabled, backupTime, localBackupRetention, driveBackupRetention,
           metricsIntervalSeconds, assistedShutdownDefaultMinutes, startTimeoutSeconds,
           restartTimeoutSeconds, stopTimeoutSeconds, diskWarningGb, diskCriticalGb,
           critical_lt_warning := h }
  else none

/-- `model_dump(mode="json")`, its keys sorted. -/
def ManagerSettings.entries (v : ManagerSettings timezones) : Dict :=
  [("assisted_shutdown_default_minutes", .int v.assistedShutdownDefaultMinutes.1),
   ("backup_enabled", .bool v.backupEnabled),
   ("backup_time", .str v.backupTime.1),
   ("disk_critical_gb", .int v.diskCriticalGb.1),
   ("disk_warning_gb", .int v.diskWarningGb.1),
   ("drive_backup_retention", .int v.driveBackupRetention.1),
   ("local_backup_retention", .int v.localBackupRetention.1),
   ("metrics_interval_seconds", .int v.metricsIntervalSeconds.1),
   ("restart_timeout_seconds", .int v.restartTimeoutSeconds.1),
   ("start_timeout_seconds", .int v.startTimeoutSeconds.1),
   ("stop_timeout_seconds", .int v.stopTimeoutSeconds.1),
   ("timezone", .str v.timezone.1)]

/-- A value that a field is read from: the value of the field, or one that is let through and
equals it. -/
def StandsFor {α : Type} (validate : Value → Option α) (encode : α → Value) (x : Value) (b : α) :
    Prop :=
  x = encode b ∨ (validate x).isSome ∧ x.pyEq (encode b) = true

/-- A validation that lets each value of a field through as it is, and of two values that are
equal makes one. -/
structure IsCanonical {α : Type} (validate : Value → Option α) (encode : α → Value) : Prop where
  validate_encode : ∀ b, validate (encode b) = some b
  eq_of_equal : ∀ x a b, validate x = some a → x.pyEq (encode b) = true → a = b

/-- **What stands for the value of a field is read as that value.** -/
theorem IsCanonical.validate {α : Type} {validate : Value → Option α} {encode : α → Value}
    (h : IsCanonical validate encode) {x : Value} {b : α} (hx : StandsFor validate encode x b) :
    validate x = some b := by
  obtain rfl | ⟨hsome, heq⟩ := hx
  · exact h.validate_encode b
  · obtain ⟨a, ha⟩ := Option.isSome_iff_exists.mp hsome
    rw [ha, h.eq_of_equal x a b ha heq]

/-- What equals an integer is a number of that value. -/
theorem pyEq_int {x : Value} {i : ℤ} : x.pyEq (.int i) = true ↔ x.number = some (i : ℚ) := by
  cases x <;> simp [Value.pyEq, Value.number]

/-- Nothing but a text equals a text. -/
theorem pyEq_str {x : Value} {t : String} : x.pyEq (.str t) = true ↔ x = .str t := by
  cases x <;> simp [Value.pyEq, Value.number]

/-- A number within bounds is read as it is. -/
theorem natIn_int {lo hi : ℕ} (n : Within lo hi) : (Value.int n.1).natIn lo hi = some n := by
  have h : (lo : ℤ) ≤ n.1 ∧ (n.1 : ℤ) ≤ hi := ⟨by exact_mod_cast n.2.1, by exact_mod_cast n.2.2⟩
  rw [Value.natIn, dif_pos h]
  rfl

/-- Numbers within bounds are written in one way. -/
theorem isCanonical_natIn (lo hi : ℕ) : IsCanonical (Value.natIn lo hi) fun n => .int n.1 where
  validate_encode := natIn_int
  eq_of_equal x a b hx heq := by
    cases x with
    | int i =>
      rw [Value.natIn] at hx
      split_ifs at hx with hi
      obtain rfl := Option.some.inj hx
      have hib : i = b.1 := by
        have hnumber : (i : ℚ) = (b.1 : ℤ) := Option.some.inj (pyEq_int.mp heq)
        exact_mod_cast hnumber
      exact Subtype.ext (by simp [hib])
    | _ => cases hx

/-- Booleans are written in one way. -/
theorem isCanonical_asBool : IsCanonical Value.asBool .bool where
  validate_encode _ := rfl
  eq_of_equal x a b hx heq := by
    cases x with
    | bool c =>
      obtain rfl : c = a := Option.some.inj hx
      revert heq
      cases c <;> cases b <;> decide
    | _ => cases hx

/-- The minutes of a countdown are written as integers. -/
theorem CountdownLiteral.isCanonical (literal : CountdownLiteral) :
    IsCanonical literal.validate fun n => .int n.1 where
  validate_encode := literal.literal
  eq_of_equal x a b hx heq := by
    have ha := pyEq_int.mp (literal.equal x a hx)
    rw [pyEq_int.mp heq, Option.some.injEq] at ha
    exact Subtype.ext (by exact_mod_cast ha.symm)

/-- A backup time is read as it is. -/
theorem validateBackupTime_str (t : {t : String // isBackupTime t.toList = true}) :
    validateBackupTime (.str t.1) = some t := by
  rw [validateBackupTime, dif_pos t.2]

/-- Backup times are written in one way. -/
theorem isCanonical_validateBackupTime : IsCanonical validateBackupTime fun t => .str t.1 where
  validate_encode := validateBackupTime_str
  eq_of_equal x a b hx heq := by
    rw [pyEq_str.mp heq, validateBackupTime_str] at hx
    exact (Option.some.inj hx).symm

/-- A time zone has a name. -/
theorem IsTimezone.length_pos {name : String} (h : IsTimezone timezones name) : 1 ≤ name.length := by
  have hne : name ≠ "" := by
    rintro rfl
    simpa [zoneInfo] using h.known
  refine Nat.one_le_iff_ne_zero.mpr fun hzero => hne ?_
  exact String.length_eq_zero_iff.mp hzero

/-- A time zone that was validated is validated as it is. -/
theorem validateTimezone_str (z : {name : String // IsTimezone timezones name}) :
    validateTimezone timezones (.str z.1) = some z := by
  have hstripped : stripped z.1 = z.1 := by rw [stripped, z.2.stripped, String.ofList_toList]
  have h : (1 ≤ z.1.length ∧ z.1.length ≤ 100) ∧ zoneInfo timezones (stripped z.1) = true :=
    ⟨⟨z.2.length_pos, z.2.length_le⟩, by rw [hstripped]; exact z.2.known⟩
  rw [validateTimezone, dif_pos h]
  exact congrArg some (Subtype.ext hstripped)

/-- Time zones are written in one way. -/
theorem isCanonical_validateTimezone :
    IsCanonical (validateTimezone timezones) fun name => .str name.1 where
  validate_encode := validateTimezone_str
  eq_of_equal x a b hx heq := by
    rw [pyEq_str.mp heq, validateTimezone_str] at hx
    exact (Option.some.inj hx).symm

/-- Settings are loaded if each of their fields is let through, and only then. -/
theorem modelValidate_eq_some {d : Dict} {v : ManagerSettings timezones} :
    modelValidate literal timezones d = some v ↔
      validateTimezone timezones (d.value "timezone") = some v.timezone ∧
      (d.value "backup_enabled").asBool = some v.backupEnabled ∧
      validateBackupTime (d.value "backup_time") = some v.backupTime ∧
      (d.value "local_backup_retention").natIn 1 30 = some v.localBackupRetention ∧
      (d.value "drive_backup_retention").natIn 1 100 = some v.driveBackupRetention ∧
      (d.value "metrics_interval_seconds").natIn 1 60 = some v.metricsIntervalSeconds ∧
      literal.validate (d.value "assisted_shutdown_default_minutes") =
        some v.assistedShutdownDefaultMinutes ∧
      (d.value "start_timeout_seconds").natIn 1 600 = some v.startTimeoutSeconds ∧
      (d.value "restart_timeout_seconds").natIn 1 600 = some v.restartTimeoutSeconds ∧
      (d.value "stop_timeout_seconds").natIn 1 300 = some v.stopTimeoutSeconds ∧
      (d.value "disk_warning_gb").natIn 1 1024 = some v.diskWarningGb ∧
      (d.value "disk_critical_gb").natIn 1 1024 = some v.diskCriticalGb := by
  constructor
  · intro h
    obtain ⟨zone, hzone, h⟩ := Option.bind_eq_some_iff.mp h
    obtain ⟨enabled, henabled, h⟩ := Option.bind_eq_some_iff.mp h
    obtain ⟨time, htime, h⟩ := Option.bind_eq_some_iff.mp h
    obtain ⟨retained, hretained, h⟩ := Option.bind_eq_some_iff.mp h
    obtain ⟨drive, hdrive, h⟩ := Option.bind_eq_some_iff.mp h
    obtain ⟨metrics, hmetrics, h⟩ := Option.bind_eq_some_iff.mp h
    obtain ⟨minutes, hminutes, h⟩ := Option.bind_eq_some_iff.mp h
    obtain ⟨start, hstart, h⟩ := Option.bind_eq_some_iff.mp h
    obtain ⟨restart, hrestart, h⟩ := Option.bind_eq_some_iff.mp h
    obtain ⟨stop, hstop, h⟩ := Option.bind_eq_some_iff.mp h
    obtain ⟨warning, hwarning, h⟩ := Option.bind_eq_some_iff.mp h
    obtain ⟨critical, hcritical, h⟩ := Option.bind_eq_some_iff.mp h
    split_ifs at h with hlt
    obtain rfl := Option.some.inj h
    exact ⟨hzone, henabled, htime, hretained, hdrive, hmetrics, hminutes, hstart, hrestart, hstop,
      hwarning, hcritical⟩
  · rintro ⟨hzone, henabled, htime, hretained, hdrive, hmetrics, hminutes, hstart, hrestart, hstop,
      hwarning, hcritical⟩
    simp only [modelValidate, hzone, henabled, htime, hretained, hdrive, hmetrics, hminutes, hstart,
      hrestart, hstop, hwarning, hcritical, Option.bind_eq_bind, Option.bind_some]
    rw [dif_pos v.critical_lt_warning]

/-- **What was validated is validated as it is**, whatever else there is. -/
theorem modelValidate_entries {d : Dict} (v : ManagerSettings timezones)
    (h : ∀ entry ∈ v.entries, d.value entry.1 = entry.2) :
    modelValidate literal timezones d = some v := by
  simp only [ManagerSettings.entries, List.forall_mem_cons, List.not_mem_nil, false_imp_iff,
    implies_true, and_true] at h
  obtain ⟨hminutes, henabled, htime, hcritical, hwarning, hdrive, hlocal, hmetrics, hrestart, hstart,
    hstop, hzone⟩ := h
  simp only [modelValidate_eq_some, hminutes, henabled, htime, hcritical, hwarning, hdrive, hlocal,
    hmetrics, hrestart, hstart, hstop, hzone, validateTimezone_str, Value.asBool,
    validateBackupTime_str, natIn_int, literal.literal, and_self]

/-- **Settings that load take other values**: each is written, or what is there equals it. -/
theorem modelValidate_of_equal {d d' : Dict} {current : ManagerSettings timezones}
    (hcurrent : modelValidate literal timezones d = some current) (v : ManagerSettings timezones)
    (h : ∀ entry ∈ v.entries, d'.value entry.1 = entry.2 ∨
      d'.value entry.1 = d.value entry.1 ∧ (d.value entry.1).pyEq entry.2 = true) :
    modelValidate literal timezones d' = some v := by
  have hfield {α : Type} {validate : Value → Option α} {encode : α → Value} {key : String} {a b : α}
      (hcanonical : IsCanonical validate encode) (hold : validate (d.value key) = some a)
      (hnew : d'.value key = encode b ∨
        d'.value key = d.value key ∧ (d.value key).pyEq (encode b) = true) :
      validate (d'.value key) = some b := by
    refine hcanonical.validate (hnew.imp_right fun hequal => ?_)
    rw [hequal.1, hold]
    exact ⟨rfl, hequal.2⟩
  simp only [ManagerSettings.entries, List.forall_mem_cons, List.not_mem_nil, false_imp_iff,
    implies_true, and_true] at h
  obtain ⟨hminutes, henabled, htime, hcritical, hwarning, hdrive, hlocal, hmetrics, hrestart, hstart,
    hstop, hzone⟩ := h
  obtain ⟨hzone', henabled', htime', hlocal', hdrive', hmetrics', hminutes', hstart', hrestart',
    hstop', hwarning', hcritical'⟩ := modelValidate_eq_some.mp hcurrent
  exact modelValidate_eq_some.mpr
    ⟨hfield isCanonical_validateTimezone hzone' hzone, hfield isCanonical_asBool henabled' henabled,
      hfield isCanonical_validateBackupTime htime' htime, hfield (isCanonical_natIn 1 30) hlocal' hlocal,
      hfield (isCanonical_natIn 1 100) hdrive' hdrive, hfield (isCanonical_natIn 1 60) hmetrics' hmetrics,
      hfield literal.isCanonical hminutes' hminutes, hfield (isCanonical_natIn 1 600) hstart' hstart,
      hfield (isCanonical_natIn 1 600) hrestart' hrestart, hfield (isCanonical_natIn 1 300) hstop' hstop,
      hfield (isCanonical_natIn 1 1024) hwarning' hwarning,
      hfield (isCanonical_natIn 1 1024) hcritical' hcritical⟩

/-- What the jobs read of the settings. -/
def ManagerSettings.forJobs (v : ManagerSettings timezones) : ManagerSettingsValues where
  localBackupRetention := v.localBackupRetention
  driveBackupRetention := v.driveBackupRetention
  diskWarningGb := v.diskWarningGb
  diskCriticalGb := v.diskCriticalGb
  critical_lt_warning := v.critical_lt_warning

/-- The jobs accept the same time zones, where none has an empty name. -/
theorem isSome_validateTimezone (h : "" ∉ timezones) (value : Value) :
    (validateTimezone timezones value).isSome = value.asStr.any fun z =>
      1 ≤ z.length && z.length ≤ 100 && timezones.contains (String.ofList (strip z.toList)) := by
  cases value with
  | str z =>
    have hknown : zoneInfo timezones (stripped z) = timezones.contains (stripped z) := by
      by_cases hz : stripped z = ""
      · simp [zoneInfo, hz, h]
      · simp [zoneInfo, hz]
    rw [validateTimezone, Value.asStr, Option.any_some,
      show String.ofList (strip z.toList) = stripped z from rfl,
      ← hknown]
    split_ifs with hvalid
    · simp [hvalid]
    · simpa only [Option.isSome_none, Bool.false_eq, ← Bool.not_eq_true, Bool.and_eq_true,
        decide_eq_true_eq] using hvalid
  | _ => rfl

/-- They accept the same booleans. -/
theorem isSome_asBool (value : Value) :
    value.asBool.isSome = (value == .bool true || value == .bool false) := by
  cases value with
  | bool b => cases b <;> rfl
  | _ => rfl

/-- They accept the same backup times. -/
theorem isSome_validateBackupTime (value : Value) :
    (validateBackupTime value).isSome = value.asStr.any fun t => isBackupTime t.toList := by
  cases value with
  | str t =>
    rw [validateBackupTime, Value.asStr, Option.any_some]
    split_ifs with h <;> simp [h]
  | _ => rfl

/-- **The jobs read the settings that are loaded**, on a host where no time zone has an empty
name and with the validation by equality. -/
theorem map_modelValidate (h : "" ∉ timezones) (d : Dict) :
    (modelValidate .byEquality timezones d).map ManagerSettings.forJobs =
      validateManagerSettings timezones d := by
  rw [modelValidate, validateManagerSettings, validOtherSettings, ← isSome_validateTimezone h,
    ← isSome_asBool, ← isSome_validateBackupTime, CountdownLiteral.byEquality_validate]
  have hfalse (b : Bool) : ((guard (b = true) : Option Unit) >>= fun _ =>
      (none : Option ManagerSettingsValues)) = none := by cases b <;> rfl
  cases validateTimezone timezones (d.value "timezone") with
  | none => rfl
  | some timezone =>
  cases (d.value "backup_enabled").asBool with
  | none => rfl
  | some backupEnabled =>
  cases validateBackupTime (d.value "backup_time") with
  | none => rfl
  | some backupTime =>
  cases (d.value "local_backup_retention").natIn 1 30 with
  | none => exact (hfalse _).symm
  | some localRetention =>
  cases (d.value "drive_backup_retention").natIn 1 100 with
  | none => exact (hfalse _).symm
  | some driveRetention =>
  cases (d.value "metrics_interval_seconds").natIn 1 60 with
  | none => rfl
  | some metrics =>
  cases (d.value "assisted_shutdown_default_minutes").countdownMinutes with
  | none => rfl
  | some minutes =>
  cases (d.value "start_timeout_seconds").natIn 1 600 with
  | none => rfl
  | some start =>
  cases (d.value "restart_timeout_seconds").natIn 1 600 with
  | none => rfl
  | some restart =>
  cases (d.value "stop_timeout_seconds").natIn 1 300 with
  | none => rfl
  | some stop =>
  cases (d.value "disk_warning_gb").natIn 1 1024 with
  | none => rfl
  | some warning =>
  cases (d.value "disk_critical_gb").natIn 1 1024 with
  | none => rfl
  | some critical =>
    simp only [Option.bind_eq_bind, Option.bind_some, Option.isSome_some, Bool.and_self, guard_true]
    by_cases hlt : critical.1 < warning.1
    · rw [dif_pos hlt, dif_pos hlt]
      rfl
    · rw [dif_neg hlt, dif_neg hlt]
      rfl

end Validation

section Payload

/-- `json.dumps` of a value, with `ensure_ascii=False`. -/
def Value.dumps : Value → Str
  | .null => Text.str "null"
  | .bool true => Text.str "true"
  | .bool false => Text.str "false"
  | .int i => Text.str (toString i)
  | .float printed _ => Text.str printed
  | .str s => jsonDumps (Text.str s)

/-- A member of a JSON object. -/
def dumpsMember (entry : String × Value) : Str :=
  jsonDumps (Text.str entry.1) ++ .ofChar ':' :: entry.2.dumps

/-- The members of a JSON object after the first one, and its end. -/
def dumpsRest : Dict → Str
  | [] => [.ofChar '}']
  | entry :: entries => .ofChar ',' :: (dumpsMember entry ++ dumpsRest entries)

/-- `json.dumps(d, ensure_ascii=False, separators=(",", ":"))`. -/
def Dict.dumps : Dict → Str
  | [] => Text.str "{}"
  | entry :: entries => .ofChar '{' :: (dumpsMember entry ++ dumpsRest entries)

/-- What `_settings_version` takes the digest of. -/
def ManagerSettings.payload {timezones : List String} (v : ManagerSettings timezones) : Str :=
  v.entries.dumps

/-- A value that is written as a word or an integer. -/
def Value.isWord : Value → Bool
  | .null | .bool _ | .int _ => true
  | _ => false

/-- A value that its document tells: all but the numbers that are no integers, of which the
printed text is not looked into. -/
def Value.IsTold (a : Value) : Prop := a.isWord = true ∨ ∃ s, a = .str s

/-- A text that follows a value within an object. -/
def FollowsValue (r : Str) : Prop := ∃ c t, r = c :: t ∧ (c = .ofChar ',' ∨ c = .ofChar '}')

/-- A character that is part of a value that is no string. -/
def isPlain (c : Point) : Bool := c != .ofChar ',' && c != .ofChar '}' && c != quotation

variable {r r' : Str} {a b : Value} {i k : ℤ}

/-- What follows a member does not go on with its value. -/
theorem followsValue_dumpsRest (d : Dict) : FollowsValue (dumpsRest d) := by
  cases d with
  | nil => exact ⟨_, _, rfl, .inr rfl⟩
  | cons entry entries => exact ⟨_, _, rfl, .inl rfl⟩

/-- A literal is told by its characters. -/
theorem str_inj {s t : String} (h : Text.str s = Text.str t) : s = t := by
  have hinj : Function.Injective Point.ofChar := fun c d hcd => by
    have h := congrArg Point.toChar hcd
    rwa [toChar_ofChar, toChar_ofChar, Option.some.injEq] at h
  exact String.toList_injective (List.map_injective_iff.mpr hinj h)

/-- A natural is written alike as an integer. -/
theorem str_int (n : ℕ) : Text.str (toString (n : ℤ)) = Text.str (toString n) := rfl

/-- A negative integer is written with a sign. -/
theorem str_negSucc (n : ℕ) :
    Text.str (toString (Int.negSucc n)) = .ofChar '-' :: Text.str (toString (n + 1)) := by
  have h : toString (Int.negSucc n) = "-" ++ toString (n + 1) := rfl
  rw [h, Text.str, String.toList_append, List.map_append]
  rfl

/-- An integer is written in digits, after a sign perhaps. -/
theorem mem_str_int {c : Point} (h : c ∈ Text.str (toString i)) :
    c.digit.isSome = true ∨ c = .ofChar '-' := by
  cases i with
  | ofNat n => exact .inl (isSome_digit_toString n c h)
  | negSucc n =>
    rw [str_negSucc] at h
    rcases List.mem_cons.mp h with rfl | h
    · exact .inr rfl
    · exact .inl (isSome_digit_toString _ c h)

/-- An integer is told by its digits. -/
theorem str_int_inj (h : Text.str (toString i) = Text.str (toString k)) : i = k := by
  have hsign (n m : ℕ) : Text.str (toString n) ≠ .ofChar '-' :: Text.str (toString m) := by
    intro h
    have hminus := isSome_digit_toString n (.ofChar '-') (h ▸ List.mem_cons_self)
    revert hminus
    decide
  cases i with
  | ofNat n =>
    cases k with
    | ofNat m =>
      have hvalue := congrArg digitsValue h
      rw [Int.ofNat_eq_natCast, Int.ofNat_eq_natCast, str_int, str_int, digitsValue_toString,
        digitsValue_toString] at hvalue
      rw [hvalue]
    | negSucc m => exact absurd (h.trans (str_negSucc m)) (hsign n _)
  | negSucc n =>
    cases k with
    | ofNat m => exact absurd ((str_negSucc n).symm.trans h).symm (hsign m _)
    | negSucc m =>
      rw [str_negSucc, str_negSucc, List.cons.injEq] at h
      have hvalue := congrArg digitsValue h.2
      rw [digitsValue_toString, digitsValue_toString] at hvalue
      obtain rfl : n = m := by omega
      rfl

/-- A word with a letter in it is no integer. -/
theorem ne_str_int {t : Str} {c : Point} (hc : c ∈ t)
    (hletter : c.digit.isSome = false ∧ c ≠ .ofChar '-') : t ≠ Text.str (toString i) := by
  rintro rfl
  rcases mem_str_int hc with h | h
  · simp [hletter.1] at h
  · exact hletter.2 h

/-- A word is written in plain characters. -/
theorem isPlain_dumps (ha : a.isWord = true) : ∀ c ∈ a.dumps, isPlain c = true := by
  cases a with
  | null => exact List.all_eq_true.mp (by decide)
  | bool x => cases x <;> exact List.all_eq_true.mp (by decide)
  | int i =>
    intro c hc
    by_contra hplain
    have hnot : c = .ofChar ',' ∨ c = .ofChar '}' ∨ c = quotation := by
      simp only [isPlain, Bool.not_eq_true, Bool.and_eq_false_iff, bne_eq_false_iff_eq] at hplain
      tauto
    have hletter : c.digit.isSome = false ∧ c ≠ .ofChar '-' := by
      rcases hnot with rfl | rfl | rfl <;> decide
    exact ne_str_int hc hletter rfl
  | _ => cases ha

/-- A word is told by what is written. -/
theorem dumps_inj (ha : a.isWord = true) (hb : b.isWord = true) (h : a.dumps = b.dumps) :
    a = b := by
  cases a with
  | null =>
    cases b with
    | null => rfl
    | bool y => cases y <;> exact absurd h (by decide)
    | int k => exact absurd h (ne_str_int (c := .ofChar 'n') (by decide) (by decide))
    | _ => cases hb
  | bool x =>
    cases b with
    | null => cases x <;> exact absurd h (by decide)
    | bool y =>
      cases x
      · cases y
        · rfl
        · exact absurd h (by decide)
      · cases y
        · exact absurd h (by decide)
        · rfl
    | int k =>
      cases x <;> exact absurd h (ne_str_int (c := .ofChar 'e') (by decide) (by decide))
    | _ => cases hb
  | int i =>
    cases b with
    | null => exact absurd h.symm (ne_str_int (c := .ofChar 'n') (by decide) (by decide))
    | bool y =>
      cases y <;> exact absurd h.symm (ne_str_int (c := .ofChar 'e') (by decide) (by decide))
    | int k => rw [str_int_inj h]
    | _ => cases hb
  | _ => cases ha

/-- A word is taken off by its characters. -/
theorem takeWhile_dumps (ha : a.isWord = true) (hr : FollowsValue r) :
    (a.dumps ++ r).takeWhile isPlain = a.dumps := by
  obtain ⟨c, t, rfl, hc⟩ := hr
  have hend : isPlain c = false := by
    rcases hc with rfl | rfl <;> decide
  rw [List.takeWhile_append_of_pos (isPlain_dumps ha), List.takeWhile_cons_of_neg (by simp [hend]),
    List.append_nil]

/-- A string does not start like a word. -/
theorem jsonDumps_ne (s : Str) (hb : b.isWord = true) (hr' : FollowsValue r') :
    jsonDumps s ++ r ≠ b.dumps ++ r' := by
  intro h
  cases hdumps : b.dumps with
  | nil =>
    obtain ⟨c, t, rfl, hc⟩ := hr'
    obtain rfl : quotation = c := by simpa [hdumps, jsonDumps] using congrArg List.head? h
    revert hc
    decide
  | cons c t =>
    obtain rfl : quotation = c := by simpa [hdumps, jsonDumps] using congrArg List.head? h
    have hplain := isPlain_dumps hb quotation (hdumps ▸ List.mem_cons_self)
    revert hplain
    decide

/-- **A value is told apart from what follows it.** -/
theorem dumps_append_inj (ha : a.IsTold) (hb : b.IsTold) (hr : FollowsValue r)
    (hr' : FollowsValue r') (h : a.dumps ++ r = b.dumps ++ r') : a = b ∧ r = r' := by
  obtain ha | ⟨s, rfl⟩ := ha
  · obtain hb | ⟨t, rfl⟩ := hb
    · have htext : a.dumps = b.dumps := by
        rw [← takeWhile_dumps ha hr, h, takeWhile_dumps hb hr']
      exact ⟨dumps_inj ha hb htext, List.append_cancel_left (htext ▸ h)⟩
    · exact absurd h.symm (jsonDumps_ne _ ha hr)
  · obtain hb | ⟨t, rfl⟩ := hb
    · exact absurd h (jsonDumps_ne _ hb hr')
    · obtain ⟨hst, hrest⟩ := jsonDumps_append_inj h
      exact ⟨by rw [str_inj hst], hrest⟩

/-- **A member is told by the document**, and what follows it too. -/
theorem dumpsMember_append_inj {x y : String × Value} (hkey : x.1 = y.1) (hx : x.2.IsTold)
    (hy : y.2.IsTold) (hr : FollowsValue r) (hr' : FollowsValue r')
    (h : dumpsMember x ++ r = dumpsMember y ++ r') : x = y ∧ r = r' := by
  obtain ⟨key, a⟩ := x
  obtain ⟨key', b⟩ := y
  obtain rfl : key = key' := hkey
  have hvalue : a.dumps ++ r = b.dumps ++ r' := by
    simpa [dumpsMember] using h
  obtain ⟨rfl, hrest⟩ := dumps_append_inj hx hy hr hr' hvalue
  exact ⟨rfl, hrest⟩

/-- The members of an object are told by the document, if their keys are the same. -/
theorem dumpsRest_inj {d d' : Dict} (hkeys : d.map Prod.fst = d'.map Prod.fst)
    (hd : ∀ entry ∈ d, entry.2.IsTold) (hd' : ∀ entry ∈ d', entry.2.IsTold)
    (h : dumpsRest d = dumpsRest d') : d = d' := by
  induction d generalizing d' with
  | nil => exact (List.map_eq_nil_iff.mp hkeys.symm).symm
  | cons x d ih =>
    cases d' with
    | nil => cases hkeys
    | cons y d' =>
      obtain ⟨hkey, hkeys'⟩ : x.1 = y.1 ∧ d.map Prod.fst = d'.map Prod.fst := by simpa using hkeys
      obtain ⟨hx, hd⟩ := List.forall_mem_cons.mp hd
      obtain ⟨hy, hrest'⟩ := List.forall_mem_cons.mp hd'
      have htail : dumpsMember x ++ dumpsRest d = dumpsMember y ++ dumpsRest d' := by
        simpa [dumpsRest] using h
      obtain ⟨rfl, hrest⟩ := dumpsMember_append_inj hkey hx hy (followsValue_dumpsRest d)
        (followsValue_dumpsRest d') htail
      rw [ih hkeys' hd hrest' hrest]

/-- **Objects with the same keys are told apart by their documents.** -/
theorem Dict.dumps_inj {d d' : Dict} (hkeys : d.map Prod.fst = d'.map Prod.fst)
    (hd : ∀ entry ∈ d, entry.2.IsTold) (hd' : ∀ entry ∈ d', entry.2.IsTold)
    (h : d.dumps = d'.dumps) : d = d' := by
  cases d with
  | nil => exact (List.map_eq_nil_iff.mp hkeys.symm).symm
  | cons x d =>
    cases d' with
    | nil => cases hkeys
    | cons y d' =>
      have hrest : dumpsRest (x :: d) = dumpsRest (y :: d') := by
        simpa [Dict.dumps, dumpsRest] using h
      exact dumpsRest_inj hkeys hd hd' hrest

/-- The fields are booleans, integers and strings. -/
theorem isTold_entries {timezones : List String} (v : ManagerSettings timezones) :
    ∀ entry ∈ v.entries, entry.2.IsTold := by
  simp only [ManagerSettings.entries, List.forall_mem_cons, Value.IsTold, Value.isWord,
    Value.str.injEq, exists_eq', or_true, true_or, true_and, List.not_mem_nil, false_imp_iff,
    implies_true]

/-- **Settings are told apart by their payloads.** -/
theorem payload_inj {timezones : List String} {v w : ManagerSettings timezones}
    (h : v.payload = w.payload) : v = w := by
  have hentries : v.entries = w.entries :=
    Dict.dumps_inj rfl (isTold_entries v) (isTold_entries w) h
  obtain ⟨⟩ := v
  obtain ⟨⟩ := w
  simp only [ManagerSettings.entries, List.cons.injEq, Prod.mk.injEq, Value.int.injEq,
    Value.bool.injEq, Value.str.injEq, Int.natCast_inj, true_and, and_true,
    ← Subtype.ext_iff] at hentries
  obtain ⟨rfl, rfl, rfl, rfl, rfl, rfl, rfl, rfl, rfl, rfl, rfl, rfl⟩ := hentries
  rfl

end Payload

end PalworldManager
