/-
# Updates of the operational settings

`load_manager_settings` and `update_manager_settings` (`manager_settings/service.py`), each
in a transaction of its own, and their runs: the immediate transaction of an update lets
nothing between its read and its writes.  The table keeps one row a key, some of them absent,
so what is stored is what the rows and the defaults give together, validated as a whole.

A row keeps its value if the new one equals it, so that a stored `True` stays under a setting of
one; what is loaded is the same (`modelValidate_of_equal`).

The digest is a parameter, with no two payloads of settings of one digest, and so is the validation
of a `Literal`.
-/

import PalworldManager.Settings.Values

namespace PalworldManager

open Text

/-- `AppSetting`. -/
structure AppSetting where
  key : String
  value : Value
  updatedAt : ℕ
  updatedByUserId : Option ℕ
  deriving DecidableEq, Repr

/-- The audit event of an update. -/
structure SettingsChange where
  occurredAt : ℕ
  userId : ℕ
  changedKeys : List String
  deriving DecidableEq, Repr

/-- What the transactions read and write. -/
structure SettingsTable where
  rows : List AppSetting
  audited : List SettingsChange
  deriving DecidableEq, Repr

/-- `ManagerSettingsConflictError` and `StoredManagerSettingsError`. -/
inductive ManagerSettingsError where
  | conflict
  | stored
  deriving DecidableEq, Repr

/-- The text of an error. -/
def ManagerSettingsError.message : ManagerSettingsError → String
  | .conflict => "As configurações foram alteradas em outra solicitação. Recarregue a página."
  | .stored => "As configurações operacionais persistidas são inválidas."

/-- `ManagerSettingsSnapshot`. -/
structure ManagerSettingsSnapshot (timezones : List String) where
  values : ManagerSettings timezones
  version : String

/-- `OPERATIONAL_SETTING_KEYS`. -/
def operationalSettingKeys : List String := defaultManagerSettings.map Prod.fst

/-- `re.fullmatch(r"[0-9a-f]{64}", expected_version)`. -/
def isVersion (t : String) : Bool :=
  t.length = 64 && t.toList.all fun c => ('0' ≤ c && c ≤ '9') || ('a' ≤ c && c ≤ 'f')

/-- The row of a key. -/
def SettingsTable.get (t : SettingsTable) (key : String) : Option AppSetting :=
  t.rows.find? fun row => row.key == key

/-- `record_audit_event`. -/
def SettingsTable.record (t : SettingsTable) (change : SettingsChange) : SettingsTable :=
  { t with audited := t.audited ++ [change] }

/-- The overrides that `load_manager_settings` reads. -/
def SettingsTable.overrides (t : SettingsTable) : Dict :=
  (t.rows.filter fun row => operationalSettingKeys.contains row.key).map
    fun row => (row.key, row.value)

section Transactions

variable (sha256 : Str → String) (literal : CountdownLiteral) (timezones : List String)

/-- `_settings_version`; the digest is of the text in UTF-8, in hexadecimal. -/
def settingsVersion {timezones : List String} (values : ManagerSettings timezones) : String :=
  sha256 values.payload

/-- `load_manager_settings`. -/
def SettingsTable.load (t : SettingsTable) :
    Except ManagerSettingsError (ManagerSettingsSnapshot timezones) :=
  match modelValidate literal timezones (t.overrides ++ defaultManagerSettings) with
  | some values => .ok ⟨values, settingsVersion sha256 values⟩
  | none => .error .stored

/-- What the loop of an update does with one key: its row is added, or changed if its value
does not equal it. -/
def SettingsTable.put (userId changedAt : ℕ) (t : SettingsTable) (entry : String × Value) :
    SettingsTable :=
  let row : AppSetting := ⟨entry.1, entry.2, changedAt, some userId⟩
  match t.get entry.1 with
  | none => { t with rows := t.rows ++ [row] }
  | some setting =>
      if setting.value.pyEq entry.2 then t
      else { t with rows := t.rows.map fun r => if r.key = entry.1 then row else r }

/-- `changed_keys`. -/
def changedKeys {timezones : List String} (current values : ManagerSettings timezones) :
    List String :=
  (values.entries.filter fun entry => current.entries.value entry.1 ≠ entry.2).map Prod.fst

/-- `update_manager_settings`. -/
def SettingsTable.update (t : SettingsTable) (values : ManagerSettings timezones)
    (expectedVersion : String) (userId occurredAt : ℕ) :
    Except ManagerSettingsError (ManagerSettingsSnapshot timezones × SettingsTable) := do
  let current ← t.load sha256 literal timezones
  if !isVersion expectedVersion ∨ current.version ≠ expectedVersion then
    .error .conflict
  else
    let written := values.entries.foldl (SettingsTable.put userId occurredAt) t
    let change : SettingsChange := ⟨occurredAt, userId, changedKeys current.values values⟩
    .ok (⟨values, settingsVersion sha256 values⟩, written.record change)

end Transactions

section Rows

variable {userId changedAt : ℕ} {t : SettingsTable} {key : String}

/-- A recorded change touches no row. -/
theorem get_record (change : SettingsChange) : (t.record change).get key = t.get key := rfl

/-- The override of a key is the value of its row. -/
theorem lookup_overrides (h : key ∈ operationalSettingKeys) :
    t.overrides.lookup key = (t.get key).map AppSetting.value := by
  obtain ⟨rows, audited⟩ := t
  simp only [SettingsTable.overrides, SettingsTable.get]
  induction rows with
  | nil => rfl
  | cons row rows ih =>
    by_cases hrow : row.key = key
    · subst hrow
      simp [h]
    · have hne : (key == row.key) = false := by simpa using fun hk => hrow hk.symm
      rw [List.find?_cons_of_neg (by simpa using hrow), ← ih, List.filter_cons]
      split_ifs
      · rw [List.map_cons, List.lookup_cons, hne]
      · rfl

/-- What is loaded under a key. -/
theorem value_overrides (h : key ∈ operationalSettingKeys) {value : Value}
    (hget : (t.get key).map AppSetting.value = some value) :
    Dict.value (t.overrides ++ defaultManagerSettings) key = value := by
  rw [Dict.value, List.lookup_append, lookup_overrides h, hget]
  rfl

/-- The value of a row after an update: the old one if it equals the new one. -/
def keptValue (old : Option Value) (new : Value) : Value :=
  match old with
  | some value => if value.pyEq new then value else new
  | none => new

/-- **A key is given its value**, and the others keep theirs. -/
theorem get_put (entry : String × Value) :
    ((t.put userId changedAt entry).get key).map AppSetting.value =
      if key = entry.1 then some (keptValue ((t.get key).map AppSetting.value) entry.2)
      else (t.get key).map AppSetting.value := by
  rw [SettingsTable.put]
  cases hget : t.get entry.1 with
  | none =>
    rw [SettingsTable.get, List.find?_append]
    split_ifs with hkey
    · rw [hkey, hget, show t.rows.find? (fun row => row.key == entry.1) = none from hget]
      simp [keptValue]
    · have hne : (entry.1 == key) = false := by simpa using fun h => hkey h.symm
      rw [List.find?_cons_of_neg (by simp [hne]), List.find?_nil, Option.or_none]
      rfl
  | some setting =>
    have hsame (row : AppSetting) (hrow : row.key = entry.1) :
        ((fun row : AppSetting => row.key == key) ∘ fun r => if r.key = entry.1 then row else r) =
          fun row => row.key == key := by
      funext r
      simp only [Function.comp_apply]
      split_ifs with hr
      · rw [hr, hrow]
      · rfl
    dsimp only
    split_ifs with hvalue hkey hkey
    · rw [hkey, hget, Option.map_some, keptValue, if_pos hvalue]
    · rfl
    · have hfound := List.find?_some hget
      rw [SettingsTable.get, List.find?_map, hsame _ rfl, hkey, hget,
        show t.rows.find? (fun row => row.key == entry.1) = some setting from hget, Option.map_some,
        Option.map_some, Option.map_some, keptValue, if_neg hvalue, if_pos (beq_iff_eq.mp hfound)]
    · rw [SettingsTable.get, List.find?_map, hsame _ rfl]
      cases hfind : t.rows.find? (fun row => row.key == key) with
      | none => rw [SettingsTable.get, hfind]; rfl
      | some row =>
        have hrow : row.key = key := by simpa using List.find?_some hfind
        rw [SettingsTable.get, hfind, Option.map_some, Option.map_some, Option.map_some,
          if_neg (by rw [hrow]; exact hkey)]

/-- The loop of an update gives each key its value, or leaves one that equals it. -/
theorem get_foldl_put {d : Dict} (hkeys : (d.map Prod.fst).Nodup) {entry : String × Value}
    (h : entry ∈ d) :
    ((d.foldl (SettingsTable.put userId changedAt) t).get entry.1).map AppSetting.value =
      some (keptValue ((t.get entry.1).map AppSetting.value) entry.2) := by
  have hkept (d : Dict) (t : SettingsTable) (hnot : entry.1 ∉ d.map Prod.fst) :
      ((d.foldl (SettingsTable.put userId changedAt) t).get entry.1).map AppSetting.value =
        (t.get entry.1).map AppSetting.value := by
    induction d generalizing t with
    | nil => rfl
    | cons x d ih =>
      obtain ⟨hx, hd⟩ : entry.1 ≠ x.1 ∧ entry.1 ∉ d.map Prod.fst := by simpa using hnot
      rw [List.foldl_cons, ih _ hd, get_put, if_neg hx]
  induction d generalizing t with
  | nil => cases h
  | cons x d ih =>
    rw [List.map_cons, List.nodup_cons] at hkeys
    rw [List.foldl_cons]
    rcases List.mem_cons.mp h with rfl | hd
    · rw [hkept d _ hkeys.1, get_put, if_pos rfl]
    · have hne : entry.1 ≠ x.1 := fun heq => hkeys.1 (heq ▸ List.mem_map_of_mem hd)
      rw [ih hkeys.2 hd, get_put, if_neg hne]

end Rows

/-- A transaction of a user. -/
inductive SettingsRequest (timezones : List String) where
  | load
  | update (values : ManagerSettings timezones) (expectedVersion : String) (userId occurredAt : ℕ)

/-- A transaction of a run: what it found, what it was answered and what it left. -/
structure SettingsStep (timezones : List String) where
  before : SettingsTable
  request : SettingsRequest timezones
  reply : Except ManagerSettingsError (ManagerSettingsSnapshot timezones)
  after : SettingsTable

/-- One transaction, rolled back where it raises. -/
def SettingsTable.perform (sha256 : Str → String) (literal : CountdownLiteral)
    {timezones : List String} (t : SettingsTable) :
    SettingsRequest timezones →
      Except ManagerSettingsError (ManagerSettingsSnapshot timezones) × SettingsTable
  | .load => (t.load sha256 literal timezones, t)
  | .update values expectedVersion userId occurredAt =>
      match t.update sha256 literal timezones values expectedVersion userId occurredAt with
      | .ok (snapshot, t') => (.ok snapshot, t')
      | .error e => (.error e, t)

/-- The runs of any number of users, one transaction after another. -/
inductive SettingsRun (sha256 : Str → String) (literal : CountdownLiteral)
    {timezones : List String} (t₀ : SettingsTable) :
    List (SettingsStep timezones) → SettingsTable → Prop
  | start : SettingsRun sha256 literal t₀ [] t₀
  | step {h : List (SettingsStep timezones)} {t : SettingsTable} (r : SettingsRequest timezones)
      (hrun : SettingsRun sha256 literal t₀ h t) :
      SettingsRun sha256 literal t₀
        (h ++ [⟨t, r, (t.perform sha256 literal r).1, (t.perform sha256 literal r).2⟩])
        (t.perform sha256 literal r).2

section Runs

variable {sha256 : Str → String} {literal : CountdownLiteral} {timezones : List String}
  {t t' : SettingsTable}
  {values : ManagerSettings timezones} {expectedVersion : String} {userId occurredAt : ℕ}
  {snapshot : ManagerSettingsSnapshot timezones}

/-- The keys of the settings, sorted. -/
theorem keys_entries (values : ManagerSettings timezones) : values.entries.map Prod.fst =
    ["assisted_shutdown_default_minutes", "backup_enabled", "backup_time", "disk_critical_gb",
      "disk_warning_gb", "drive_backup_retention", "local_backup_retention",
      "metrics_interval_seconds", "restart_timeout_seconds", "start_timeout_seconds",
      "stop_timeout_seconds", "timezone"] := rfl

/-- No setting is written twice. -/
theorem nodup_keys (values : ManagerSettings timezones) : (values.entries.map Prod.fst).Nodup := by
  rw [keys_entries]
  decide

/-- What is written is one of the settings of the manager. -/
theorem key_mem_operational {entry : String × Value} (h : entry ∈ values.entries) :
    entry.1 ∈ operationalSettingKeys := by
  have hkeys : ∀ key ∈ values.entries.map Prod.fst, key ∈ operationalSettingKeys := by
    rw [keys_entries]
    decide
  exact hkeys entry.1 (List.mem_map_of_mem h)

/-- The version that is loaded is that of the values. -/
theorem load_eq_ok (h : t.load sha256 literal timezones = .ok snapshot) :
    snapshot.version = settingsVersion sha256 snapshot.values := by
  rw [SettingsTable.load] at h
  split at h
  · obtain rfl : _ = snapshot := by simpa using h
    rfl
  · cases h

/-- **What an update that succeeds does.** -/
theorem update_eq_ok (h : t.update sha256 literal timezones values expectedVersion userId occurredAt =
      .ok (snapshot, t')) :
    (∃ current, t.load sha256 literal timezones = .ok current ∧ current.version = expectedVersion) ∧
      snapshot = ⟨values, settingsVersion sha256 values⟩ ∧
        t'.load sha256 literal timezones = .ok snapshot := by
  obtain ⟨current, hload, h⟩ := except_bind_eq_ok.mp h
  split_ifs at h with hversion
  obtain ⟨rfl, rfl⟩ : _ = snapshot ∧ _ = t' := by simpa using h
  refine ⟨⟨current, hload, ?_⟩, rfl, ?_⟩
  · exact not_not.mp fun hne => hversion (.inr hne)
  · have hcurrent : modelValidate literal timezones (t.overrides ++ defaultManagerSettings) =
        some current.values := by
      rw [SettingsTable.load] at hload
      split at hload
      · obtain rfl : _ = current := by simpa using hload
        assumption
      · cases hload
    rw [SettingsTable.load, modelValidate_of_equal hcurrent values]
    intro entry hentry
    have hkey := key_mem_operational hentry
    have hwritten : ((values.entries.foldl (SettingsTable.put userId occurredAt) t).get entry.1).map
        AppSetting.value = some (keptValue ((t.get entry.1).map AppSetting.value) entry.2) :=
      get_foldl_put (nodup_keys values) hentry
    rw [← get_record ⟨occurredAt, userId, changedKeys current.values values⟩] at hwritten
    have hnew := value_overrides hkey hwritten
    rw [hnew]
    cases hold : (t.get entry.1).map AppSetting.value with
    | none => exact .inl rfl
    | some old =>
      rw [value_overrides hkey hold, keptValue]
      split_ifs with hequal
      · exact .inr ⟨rfl, hequal⟩
      · exact .inl rfl

end Runs

/-- The values that a transaction leaves stored, if it stores any. -/
def SettingsStep.stored {timezones : List String} (e : SettingsStep timezones) :
    Option (ManagerSettings timezones) :=
  match e.request, e.reply with
  | .update values _ _ _, .ok _ => some values
  | _, _ => none

/-- The values of the last update that succeeded, or those there were. -/
def lastValues {timezones : List String} (values : ManagerSettings timezones)
    (h : List (SettingsStep timezones)) : ManagerSettings timezones :=
  h.foldl (fun values e => e.stored.getD values) values

section Optimistic

variable {sha256 : Str → String} {literal : CountdownLiteral} {timezones : List String}
  {t t₀ : SettingsTable}
  {h : List (SettingsStep timezones)} {snapshot snapshot₀ : ManagerSettingsSnapshot timezones}

/-- A transaction that raised changes nothing. -/
theorem perform_error {r : SettingsRequest timezones} {e : ManagerSettingsError}
    (hr : (t.perform sha256 literal r).1 = .error e) : (t.perform sha256 literal r).2 = t := by
  cases r with
  | load => rfl
  | update values expectedVersion userId occurredAt =>
    rw [SettingsTable.perform] at hr ⊢
    split at hr
    · cases hr
    · rfl

/-- What a user is answered is of the version of its values. -/
theorem perform_version {r : SettingsRequest timezones}
    (hr : (t.perform sha256 literal r).1 = .ok snapshot) :
    snapshot.version = settingsVersion sha256 snapshot.values := by
  cases r with
  | load => exact load_eq_ok hr
  | update values expectedVersion userId occurredAt =>
    rw [SettingsTable.perform] at hr
    split at hr
    · rename_i snapshot' t' hupdate
      obtain rfl : snapshot' = snapshot := by simpa using hr
      rw [(update_eq_ok hupdate).2.1]
    · cases hr

/-- **The step lemma**: the stored settings load after a transaction as they did before, or
as the values of the update. -/
theorem load_perform (r : SettingsRequest timezones)
    (hload : t.load sha256 literal timezones = .ok snapshot) :
    let e : SettingsStep timezones := ⟨t, r, (t.perform sha256 literal r).1, (t.perform sha256 literal r).2⟩
    (e.after.load sha256 literal timezones).map (·.values) = .ok (e.stored.getD snapshot.values) := by
  cases r with
  | load => simp [SettingsTable.perform, SettingsStep.stored, hload, Except.map]
  | update values expectedVersion userId occurredAt =>
    cases hupdate : t.update sha256 literal timezones values expectedVersion userId occurredAt with
    | error e => simp [SettingsTable.perform, SettingsStep.stored, hupdate, hload, Except.map]
    | ok result =>
      obtain ⟨snapshot', t'⟩ := result
      obtain ⟨-, rfl, hload'⟩ := update_eq_ok hupdate
      simp [SettingsTable.perform, SettingsStep.stored, hupdate, hload', Except.map]

/-- Each transaction of a run is one. -/
theorem SettingsRun.steps (hrun : SettingsRun sha256 literal t₀ h t) :
    ∀ e ∈ h, e.before.perform sha256 literal e.request = (e.reply, e.after) := by
  induction hrun with
  | start => simp
  | step r _ ih =>
    intro e he
    rcases List.mem_append.mp he with he | he
    · exact ih e he
    · obtain rfl : e = _ := by simpa using he
      rfl

/-- **The run lemma**: the stored settings load, as the last update left them. -/
theorem SettingsRun.load (hrun : SettingsRun sha256 literal t₀ h t)
    (h₀ : t₀.load sha256 literal timezones = .ok snapshot₀) :
    (t.load sha256 literal timezones).map (·.values) = .ok (lastValues snapshot₀.values h) := by
  induction hrun with
  | start => rw [h₀]; rfl
  | step r _ ih =>
    rename_i h t
    obtain ⟨snapshot, hload, hvalues⟩ := except_map_eq_ok.mp ih
    rw [load_perform r hload, lastValues, List.foldl_append, ← lastValues, hvalues]
    rfl

/-- **The operational settings are updated optimistically**, and stay valid. -/
theorem SettingsRun.optimistic
    (hsha : ∀ v w : ManagerSettings timezones, sha256 v.payload = sha256 w.payload →
      v.payload = w.payload)
    (h₀ : t₀.load sha256 literal timezones = .ok snapshot₀) (hrun : SettingsRun sha256 literal t₀ h t) :
    (t.load sha256 literal timezones).map (·.values) = .ok (lastValues snapshot₀.values h) ∧
      (∀ e ∈ h, ∀ values expectedVersion userId occurredAt,
        e.request = .update values expectedVersion userId occurredAt →
          (∀ snapshot, e.reply = .ok snapshot →
            ∃ current, e.before.load sha256 literal timezones = .ok current ∧
              ∀ seen, settingsVersion sha256 seen = expectedVersion ↔ seen = current.values) ∧
          ∀ error, e.reply = .error error → e.after = e.before) ∧
      ∀ h₁ a h₂ b h₃, h = h₁ ++ a :: h₂ ++ b :: h₃ → ∀ seen, a.reply = .ok seen →
        ∀ values userId occurredAt snapshot,
          b.request = .update values seen.version userId occurredAt → b.reply = .ok snapshot →
            b.before.load sha256 literal timezones = .ok seen := by
  have hinj {v w : ManagerSettings timezones}
      (heq : settingsVersion sha256 v = settingsVersion sha256 w) : v = w :=
    payload_inj (hsha v w heq)
  have hsucceeds : ∀ e ∈ h, ∀ values expectedVersion userId occurredAt,
      e.request = .update values expectedVersion userId occurredAt →
      ∀ snapshot, e.reply = .ok snapshot →
        ∃ current, e.before.load sha256 literal timezones = .ok current ∧
          current.version = expectedVersion := by
    intro e he values expectedVersion userId occurredAt hrequest snapshot hreply
    have hstep := hrun.steps e he
    rw [hrequest, hreply, SettingsTable.perform] at hstep
    split at hstep
    · rename_i hupdate
      exact (update_eq_ok hupdate).1
    · simp at hstep
  refine ⟨hrun.load h₀, fun e he values expectedVersion userId occurredAt hrequest => ⟨?_, ?_⟩, ?_⟩
  · intro snapshot hreply
    obtain ⟨current, hload, rfl⟩ :=
      hsucceeds e he values expectedVersion userId occurredAt hrequest snapshot hreply
    refine ⟨current, hload, fun seen => ?_⟩
    rw [load_eq_ok hload]
    exact ⟨hinj, fun heq => by rw [heq]⟩
  · intro error hreply
    have hstep := hrun.steps e he
    have hraised : (e.before.perform sha256 literal e.request).1 = .error error := by rw [hstep, hreply]
    have hafter := perform_error hraised
    rwa [hstep] at hafter
  · rintro h₁ a h₂ b h₃ rfl seen hseen values userId occurredAt snapshot hrequest hreply
    obtain ⟨current, hload, hversion⟩ :=
      hsucceeds b (by simp) values seen.version userId occurredAt hrequest snapshot hreply
    have ha := hrun.steps a (by simp)
    have hanswered : (a.before.perform sha256 literal a.request).1 = .ok seen := by rw [ha, hseen]
    have hof := perform_version hanswered
    have hvalues : current.values = seen.values := by
      refine hinj ?_
      rw [← load_eq_ok hload, hversion, hof]
    obtain ⟨currentValues, currentVersion⟩ := current
    obtain ⟨seenValues, seenVersion⟩ := seen
    rw [hload]
    exact congrArg Except.ok (by rw [ManagerSettingsSnapshot.mk.injEq]; exact ⟨hvalues, hversion⟩)

end Optimistic

section Sample

/-- The time zone of the defaults. -/
def sampleZones : List String := ["America/Sao_Paulo"]

/-- The defaults, but for the number of local backups. -/
def sampleSettings (localBackups : Within 1 30) : ManagerSettings sampleZones where
  timezone := ⟨"America/Sao_Paulo", by decide, by decide, by decide⟩
  backupEnabled := true
  backupTime := ⟨"04:00", by decide⟩
  localBackupRetention := localBackups
  driveBackupRetention := ⟨10, by decide⟩
  metricsIntervalSeconds := ⟨5, by decide⟩
  assistedShutdownDefaultMinutes := ⟨5, by decide⟩
  startTimeoutSeconds := ⟨120, by decide⟩
  restartTimeoutSeconds := ⟨120, by decide⟩
  stopTimeoutSeconds := ⟨60, by decide⟩
  diskWarningGb := ⟨20, by decide⟩
  diskCriticalGb := ⟨10, by decide⟩
  critical_lt_warning := by decide

/-- The default settings. -/
def threeBackups : ManagerSettings sampleZones := sampleSettings ⟨3, by decide⟩

/-- Settings that keep more local backups. -/
def fiveBackups : ManagerSettings sampleZones := sampleSettings ⟨5, by decide⟩

/-- The version of the defaults. -/
def threeVersion : String := "aab9c50cb72cd0c6b968073557b9fbede208798b7047a75f8ab2378e83e50c47"

/-- The version of the other settings. -/
def fiveVersion : String := "1bfb3be8cad7cff461eec346aba80bee28e885cfb95239ea8aa742d325f5a59b"

/-- A character as two that are no surrogates. -/
def codedPoint (c : Point) : List Char := [Char.ofNat (c.val / 0x1000), Char.ofNat (c.val % 0x1000)]

/-- The digests of the two payloads, and something else for every other text. -/
def sampleDigest (t : Str) : String :=
  if t = threeBackups.payload then threeVersion
  else if t = fiveBackups.payload then fiveVersion
  else String.ofList ('#' :: t.flatMap codedPoint)

/-- A code below the surrogates is that of its character. -/
theorem toNat_ofNat_of_lt {n : ℕ} (h : n < 0xd800) : (Char.ofNat n).toNat = n := by
  rw [Char.ofNat, dif_pos (.inl h)]
  exact UInt32.toNat_ofNatLT

/-- The coded characters tell two texts apart. -/
theorem codedPoint_inj {s t : Str} (h : s.flatMap codedPoint = t.flatMap codedPoint) : s = t := by
  induction s generalizing t with
  | nil =>
    cases t with
    | nil => rfl
    | cons d t => simp [codedPoint] at h
  | cons c s ih =>
    cases t with
    | nil => simp [codedPoint] at h
    | cons d t =>
      simp only [codedPoint, List.flatMap_cons, List.cons_append, List.nil_append,
        List.cons.injEq] at h
      obtain ⟨hhigh, hlow, htail⟩ := h
      have hdiv := congrArg Char.toNat hhigh
      have hmod := congrArg Char.toNat hlow
      rw [toNat_ofNat_of_lt (by omega), toNat_ofNat_of_lt (by omega)] at hdiv hmod
      have hcd : c = d := Fin.ext (by omega)
      rw [hcd, ih htail]

/-- **The sample digest is one to one.** -/
theorem sampleDigest_inj {s t : Str} (h : sampleDigest s = sampleDigest t) : s = t := by
  have hcoded (u : Str) (version : String) (hhead : version.toList.head? ≠ some '#') :
      String.ofList ('#' :: u.flatMap codedPoint) ≠ version := by
    rintro rfl
    simp at hhead
  have hthree : threeVersion.toList.head? ≠ some '#' := by decide
  have hfive : fiveVersion.toList.head? ≠ some '#' := by decide
  have hne : threeVersion ≠ fiveVersion := by decide
  unfold sampleDigest at h
  split_ifs at h with hs ht ht' hs' ht ht' ht ht'
  · rw [hs, ht]
  · exact absurd h hne
  · exact absurd h.symm (hcoded t _ hthree)
  · exact absurd h.symm hne
  · rw [hs', ht']
  · exact absurd h.symm (hcoded t _ hfive)
  · exact absurd h (hcoded s _ hthree)
  · exact absurd h (hcoded s _ hfive)
  · refine codedPoint_inj ?_
    simpa using congrArg String.toList h

/-- A table where the default number of minutes is stored as `5.0`. -/
def sampleTable : SettingsTable :=
  ⟨[⟨"assisted_shutdown_default_minutes", .float "5.0" 5, 0, none⟩], []⟩

/-- Two users update the defaults that both of them saw; the second one is refused. -/
theorem SettingsRun.optimistic_twoUsers : ∃ h t,
    @SettingsRun sampleDigest .byEquality sampleZones sampleTable h t ∧
      h.map (fun e => e.reply.isOk) = [true, true, false] ∧
      (t.load sampleDigest .byEquality sampleZones).map (·.values) = .ok fiveBackups := by
  have hvalid : modelValidate .byEquality sampleZones
      (sampleTable.overrides ++ defaultManagerSettings) = some threeBackups := by decide +kernel
  have hload : SettingsTable.load sampleDigest .byEquality sampleZones sampleTable =
      .ok ⟨threeBackups, settingsVersion sampleDigest threeBackups⟩ := by
    rw [SettingsTable.load, hvalid]
  have hstart : @SettingsRun sampleDigest .byEquality sampleZones sampleTable [] sampleTable :=
    .start
  have hrun := ((hstart.step .load).step (.update fiveBackups threeVersion 1 0)).step
    (.update threeBackups threeVersion 2 0)
  obtain ⟨hlast, -⟩ := SettingsRun.optimistic (fun _ _ => sampleDigest_inj) hload hrun
  exact ⟨_, _, hrun, by decide +kernel, hlast.trans (congrArg Except.ok (by decide +kernel))⟩

end Sample

end PalworldManager
