/-
# Operational settings

`manager_settings/service.py` as the jobs read it: the stored settings override
the defaults, and the result is validated as a whole, so that one invalid value
makes every reader raise.  `lifecycle_timeout` and `assisted_shutdown_default`
(`lifecycle/jobs.py`, `shutdown/jobs.py`) read single settings with checks of
their own.

The names that `ZoneInfo` accepts are the time zones of the host, a field of the
`World`.
-/

import PalworldManager.Jobs.Runtime
import PalworldManager.Text.Chars

namespace PalworldManager

open Text

/-- `DEFAULT_MANAGER_SETTINGS`. -/
def defaultManagerSettings : Dict :=
  [("timezone", .str "America/Sao_Paulo"),
   ("backup_enabled", .bool true),
   ("backup_time", .str "04:00"),
   ("local_backup_retention", .int 3),
   ("drive_backup_retention", .int 10),
   ("metrics_interval_seconds", .int 5),
   ("assisted_shutdown_default_minutes", .int 5),
   ("start_timeout_seconds", .int 120),
   ("restart_timeout_seconds", .int 120),
   ("stop_timeout_seconds", .int 60),
   ("disk_warning_gb", .int 20),
   ("disk_critical_gb", .int 10)]

/-- An integer within the bounds of a field. -/
abbrev Within (lo hi : ℕ) := {n : ℕ // lo ≤ n ∧ n ≤ hi}

/-- `ManagerSettingsValues`, as far as the jobs read it: values that passed the
validation, within the bounds of their fields. -/
structure ManagerSettingsValues where
  localBackupRetention : Within 1 30
  driveBackupRetention : Within 1 100
  diskWarningGb : Within 1 1024
  diskCriticalGb : Within 1 1024
  critical_lt_warning : diskCriticalGb.1 < diskWarningGb.1

/-- `BACKUP_TIME_PATTERN`. -/
def isBackupTime (t : List Char) : Bool :=
  match t with
  | [h, h', ':', m, m'] =>
      ((('0' ≤ h && h ≤ '1') && h'.isDigit) || (h == '2' && '0' ≤ h' && h' ≤ '3')) &&
        ('0' ≤ m && m ≤ '5') && m'.isDigit
  | _ => false

/-- Within bounds of naturals, an integer is a natural. -/
theorem toNat_within {lo hi : ℕ} {i : ℤ} (h : lo ≤ i ∧ i ≤ hi) : lo ≤ i.toNat ∧ i.toNat ≤ hi := by
  omega

/-- `int` of a strict model, `ge=lo, le=hi`. -/
def Value.natIn (lo hi : ℕ) : Value → Option (Within lo hi)
  | .int i => if h : lo ≤ i ∧ i ≤ hi then some ⟨i.toNat, toNat_within h⟩ else none
  | _ => none

/-- `Literal[0, 1, 5, 10]`. -/
abbrev CountdownMinutes := {n : ℕ // n ∈ [0, 1, 5, 10]}

/-- `Literal[0, 1, 5, 10]` of a strict model, where it looks the value up among its own: what
equals one of them is that one, a boolean or `5.0` too. -/
def Value.countdownMinutes (v : Value) : Option CountdownMinutes :=
  [0, 1, 5, 10].attach.find? fun n => v.pyEq (.int n.1)

/-- The fields of `ManagerSettingsValues` that no job reads. -/
def validOtherSettings (timezones : List String) (d : Dict) : Bool :=
  ((d.value "timezone").asStr.any fun z =>
    1 ≤ z.length && z.length ≤ 100 && timezones.contains (String.ofList (strip z.toList))) &&
  (d.value "backup_enabled" == .bool true || d.value "backup_enabled" == .bool false) &&
  ((d.value "backup_time").asStr.any fun t => isBackupTime t.toList) &&
  ((d.value "metrics_interval_seconds").natIn 1 60).isSome &&
  (d.value "assisted_shutdown_default_minutes").countdownMinutes.isSome &&
  ((d.value "start_timeout_seconds").natIn 1 600).isSome &&
  ((d.value "restart_timeout_seconds").natIn 1 600).isSome &&
  ((d.value "stop_timeout_seconds").natIn 1 300).isSome

/-- `ManagerSettingsValues.model_validate`. -/
def validateManagerSettings (timezones : List String) (d : Dict) :
    Option ManagerSettingsValues := do
  guard (validOtherSettings timezones d)
  let l ← (d.value "local_backup_retention").natIn 1 30
  let r ← (d.value "drive_backup_retention").natIn 1 100
  let w ← (d.value "disk_warning_gb").natIn 1 1024
  let c ← (d.value "disk_critical_gb").natIn 1 1024
  if h : c.1 < w.1 then some ⟨l, r, w, c, h⟩ else none

/-- `load_manager_settings`. -/
def loadManagerSettings (s : World) : Except Exn ManagerSettingsValues :=
  match validateManagerSettings s.timezones (s.settings ++ defaultManagerSettings) with
  | some v => .ok v
  | none => .error .storedSettings

/-- `lifecycle_timeout`: the stored timeout of an action, or its default. -/
def lifecycleTimeout (s : World) (action : LifecycleAction) : Except Exn ℤ :=
  let key := match action with
    | .start => "start_timeout_seconds"
    | .restart => "restart_timeout_seconds"
    | .stop => "stop_timeout_seconds"
  let default : ℤ := match action with
    | .start | .restart => 120
    | .stop => 60
  let maximum : ℤ := match action with
    | .stop => 300
    | _ => 600
  match s.settings.lookup key with
  | none => .ok default
  | some v => match v.asInt with
    | some i => if 1 ≤ i ∧ i ≤ maximum then .ok i else .error (.fault .value)
    | none => .error (.fault .value)

/-- `assisted_shutdown_default`. -/
def assistedShutdownDefault (s : World) : Except Exn ℤ :=
  match s.settings.lookup "assisted_shutdown_default_minutes" with
  | none => .ok 5
  | some v => match v.asInt with
    | some i => if i ∈ ([0, 1, 5, 10] : List ℤ) then .ok i else .error (.fault .value)
    | none => .error (.fault .value)

/-- With nothing stored the defaults pass their own validation, on a host that
knows the default time zone. -/
theorem validateManagerSettings_default (timezones : List String)
    (h : "America/Sao_Paulo" ∈ timezones) :
    validateManagerSettings timezones defaultManagerSettings =
      some ⟨⟨3, by decide⟩, ⟨10, by decide⟩, ⟨20, by decide⟩, ⟨10, by decide⟩, by decide⟩ := by
  have hzone : defaultManagerSettings.value "timezone" = .str "America/Sao_Paulo" := by decide
  have hstrip : String.ofList (strip "America/Sao_Paulo".toList) = "America/Sao_Paulo" := by
    decide
  have hother : validOtherSettings timezones defaultManagerSettings = true := by
    have hrest : validOtherSettings ["America/Sao_Paulo"] defaultManagerSettings = true := by
      decide
    simp only [validOtherSettings, hzone, Value.asStr, Option.any_some, hstrip,
      Bool.and_eq_true, List.contains_iff_mem] at hrest ⊢
    simp only [h, hrest, and_self]
  simp only [validateManagerSettings, hother]
  rfl

end PalworldManager
