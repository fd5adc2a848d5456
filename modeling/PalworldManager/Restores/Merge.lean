/-
# Merging the settings of a backup

`merge_palworld_settings` (`restores/service.py`): the values that a backup has for known
settings are put into the current file, whose secrets, unknown entries and layout stay.
-/

import PalworldManager.Backups.Redaction

namespace PalworldManager

open Text

/-- `RestoreValidationError`. -/
structure RestoreValidationError where
  category : String
  publicMessage : String
  deriving DecidableEq, Repr

/-- The last `except` clause of `merge_palworld_settings`. -/
def orMergeUnsafe {ε α : Type} (x : Except ε α) : Except RestoreValidationError α :=
  x.mapError fun _ => ⟨"SETTINGS_MERGE_UNSAFE",
    "O PalWorldSettings.ini não pode ser combinado com segurança."⟩

/-- The loop of `_unique_ini_entries`, which has so many entries behind it. -/
def uniqueFrom (result : List IniValue) :
    List IniEntry → Except RestoreValidationError (List IniValue)
  | [] => .ok result
  | entry :: entries =>
      match entry.field with
      | none => uniqueFrom result entries
      | some field =>
          if field.key ∈ result.map IniValue.key then
            .error ⟨"SETTINGS_MERGE_UNSAFE",
              "O PalWorldSettings.ini contém parâmetros duplicados."⟩
          else uniqueFrom (result ++ [field]) entries

/-- `_unique_ini_entries`.  An entry of the result has a key, and so it has a value. -/
def uniqueIniEntries (entries : List IniEntry) :
    Except RestoreValidationError (List IniValue) := uniqueFrom [] entries

/-- `_validate_known_values`. -/
def validateKnownValues : List IniValue → Except SettingValueError Unit
  | [] => .ok ()
  | field :: fields =>
      match settingDefinition field.key with
      | none => validateKnownValues fields
      | some d =>
          if d.kind = .readOnly ∨ d.kind = .sensitive then validateKnownValues fields
          else do
            let _ ← parseSettingValue d field.value
            validateKnownValues fields

/-- A known setting that is no secret. -/
def isRestored (key : Str) : Bool := (settingDefinition key).any fun d => d.kind ≠ .sensitive

/-- The replacements of `merge_palworld_settings`. -/
def mergeReplacements (current : List IniValue) :
    List IniValue → Except RestoreValidationError (List (Str × Str))
  | [] => .ok []
  | field :: fields =>
      if isRestored field.key then
        if field.key ∈ current.map IniValue.key then do
          let replacements ← mergeReplacements current fields
          pure ((field.key, field.value) :: replacements)
        else .error ⟨"SETTINGS_MERGE_UNSAFE",
          "O PalWorldSettings.ini não pode ser combinado de forma determinística."⟩
      else mergeReplacements current fields

/-- The `sensitive` of the last loop of `merge_palworld_settings`. -/
def isSecret (key : Str) : Bool :=
  (settingDefinition key).any (fun d => d.kind = .sensitive) || isSensitiveName key

/-- The last loop of `merge_palworld_settings`. -/
def checkSecrets (merged : List IniValue) : List IniValue → Except RestoreValidationError Unit
  | [] => .ok ()
  | field :: fields =>
      if isSecret field.key ∧
          (merged.find? fun f => f.key = field.key).map IniValue.value ≠ some field.value then
        .error ⟨"SETTINGS_SECRET_CHANGED", "Um valor sensível não pôde ser preservado."⟩
      else checkSecrets merged fields

/-- `merge_palworld_settings`. -/
def mergePalworldSettings (backupContent currentContent : Str) :
    Except RestoreValidationError Str := do
  let backup ← orMergeUnsafe (parseIni backupContent)
  let current ← orMergeUnsafe (parseIni currentContent)
  let backupEntries ← uniqueIniEntries backup.entries
  let currentEntries ← uniqueIniEntries current.entries
  orMergeUnsafe (validateKnownValues currentEntries)
  orMergeUnsafe (validateKnownValues backupEntries)
  let replacements ← mergeReplacements currentEntries backupEntries
  let merged := current.render replacements
  let mergedIni ← orMergeUnsafe (parseIni merged)
  let mergedEntries ← uniqueIniEntries mergedIni.entries
  orMergeUnsafe (validateKnownValues mergedEntries)
  checkSecrets mergedEntries currentEntries
  pure merged

/-- The values of the entries that have a key. -/
def ParsedIni.fields (parsed : ParsedIni) : List IniValue :=
  parsed.entries.filterMap IniEntry.field

section Checks

variable {ε α : Type} {x : Except ε α} {entries : List IniEntry} {result fields current : List IniValue}
  {replacements : List (Str × Str)} {a : α} {key v : Str}

/-- Only what succeeds is passed on. -/
theorem orMergeUnsafe_eq_ok : orMergeUnsafe x = .ok a ↔ x = .ok a := by
  cases x <;> simp [orMergeUnsafe, Except.mapError]

/-- The loop collects the fields of the entries, and only where no key comes twice. -/
theorem uniqueFrom_eq_ok (hresult : (result.map IniValue.key).Nodup) :
    uniqueFrom result entries = .ok fields ↔
      fields = result ++ entries.filterMap IniEntry.field ∧ (fields.map IniValue.key).Nodup := by
  induction entries generalizing result with
  | nil =>
    rw [uniqueFrom, List.filterMap_nil, List.append_nil]
    constructor
    · intro h
      obtain rfl : result = fields := by simpa using h
      exact ⟨rfl, hresult⟩
    · rintro ⟨rfl, -⟩
      rfl
  | cons entry entries ih =>
    rw [uniqueFrom]
    cases hf : entry.field with
    | none => rw [List.filterMap_cons_none hf, ih hresult]
    | some f =>
      rw [List.filterMap_cons_some hf]
      simp only
      split_ifs with hdup
      · refine ⟨nofun, fun ⟨hfields, hnodup⟩ => absurd hdup fun hmem => ?_⟩
        rw [hfields, List.map_append, List.map_cons, List.nodup_append] at hnodup
        exact hnodup.2.2 f.key hmem f.key List.mem_cons_self rfl
      · have hnodup : ((result ++ [f]).map IniValue.key).Nodup := by
          rw [List.map_append, List.nodup_append]
          refine ⟨hresult, by simp, fun k hk k' hk' hkk => hdup ?_⟩
          obtain rfl : k' = f.key := by simpa using hk'
          exact hkk ▸ hk
        rw [ih hnodup, List.append_assoc, List.singleton_append]

/-- `_unique_ini_entries` accepts what has no key twice. -/
theorem uniqueIniEntries_eq_ok :
    uniqueIniEntries entries = .ok fields ↔
      fields = entries.filterMap IniEntry.field ∧ (fields.map IniValue.key).Nodup := by
  have hnil : (([] : List IniValue).map IniValue.key).Nodup := List.nodup_nil
  rw [uniqueIniEntries, uniqueFrom_eq_ok hnil, List.nil_append]

/-- What `merge_palworld_settings` puts into the current file. -/
theorem mergeReplacements_eq_ok :
    mergeReplacements current fields = .ok replacements ↔
      replacements = (fields.filter fun f => isRestored f.key).map (fun f => (f.key, f.value)) ∧
        ∀ f ∈ fields, isRestored f.key = true → f.key ∈ current.map IniValue.key := by
  induction fields generalizing replacements with
  | nil =>
    rw [mergeReplacements]
    constructor
    · intro h
      obtain rfl : [] = replacements := by simpa using h
      exact ⟨rfl, by simp⟩
    · rintro ⟨rfl, -⟩
      rfl
  | cons f fields ih =>
    rw [mergeReplacements, List.forall_mem_cons]
    by_cases hf : isRestored f.key = true
    · rw [if_pos hf, List.filter_cons_of_pos (by simpa using hf), List.map_cons]
      by_cases hmem : f.key ∈ current.map IniValue.key
      · rw [if_pos hmem, except_bind_eq_ok]
        constructor
        · rintro ⟨rest, hrest, hpure⟩
          obtain rfl : (f.key, f.value) :: rest = replacements := by simpa [pure, Except.pure] using hpure
          obtain ⟨rfl, hall⟩ := ih.mp hrest
          exact ⟨rfl, fun _ => hmem, hall⟩
        · rintro ⟨rfl, -, hall⟩
          exact ⟨_, ih.mpr ⟨rfl, hall⟩, rfl⟩
      · rw [if_neg hmem]
        simp [hf, hmem]
    · rw [if_neg hf, List.filter_cons_of_neg (by simpa using hf), ih]
      simp [hf]

/-- The value that replaces the one of a key, when no key occurs twice. -/
theorem lookup_replacements (hnodup : (fields.map IniValue.key).Nodup) :
    ((fields.filter fun f => isRestored f.key).map fun f => (f.key, f.value)).lookup key = some v ↔
      isRestored key = true ∧ ∃ f ∈ fields, f.key = key ∧ f.value = v := by
  induction fields with
  | nil => simp
  | cons f fields ih =>
    rw [List.map_cons, List.nodup_cons] at hnodup
    have hrest := ih hnodup.2
    by_cases hkey : key = f.key
    · have hnone : ¬∃ g ∈ fields, g.key = key ∧ g.value = v := by
        rintro ⟨g, hg, hgkey, -⟩
        exact hnodup.1 (List.mem_map.mpr ⟨g, hg, hgkey.trans hkey⟩)
      rw [hkey] at hrest hnone ⊢
      by_cases hf : isRestored f.key = true
      · rw [List.filter_cons_of_pos (by simpa using hf), List.map_cons, List.lookup_cons]
        simp [hf, hnone]
      · rw [List.filter_cons_of_neg (by simpa using hf), hrest]
        simp [hf]
    · have hbeq : (key == f.key) = false := by simpa using hkey
      by_cases hf : isRestored f.key = true
      · rw [List.filter_cons_of_pos (by simpa using hf), List.map_cons, List.lookup_cons, hbeq, hrest]
        simp [Ne.symm hkey]
      · rw [List.filter_cons_of_neg (by simpa using hf), hrest]
        simp [Ne.symm hkey]

end Checks

/-- A key whose value a restore does not touch. -/
def IsSecretKey (key : Str) : Prop :=
  (∃ d, settingDefinition key = some d ∧ d.kind = .sensitive) ∨
    settingDefinition key = none ∧ isSensitiveName key = true

/-- A key whose value a restore takes from the backup. -/
def IsRestoredKey (key : Str) : Prop := ∃ d, settingDefinition key = some d ∧ d.kind ≠ .sensitive

/-- What an entry of the current file is after the merge. -/
structure EntryMerged (backup : ParsedIni) (entry entry' : IniEntry) : Prop where
  malformed : entry.key = none → entry' = entry
  secret : ∀ key, entry.key = some key → IsSecretKey key → entry' = entry
  unknown : ∀ key, entry.key = some key → settingDefinition key = none → entry' = entry
  absent : ∀ key, entry.key = some key → (∀ f ∈ backup.fields, f.key ≠ key) → entry' = entry
  restored : ∀ f ∈ backup.fields, IsRestoredKey f.key → entry.key = some f.key →
    ∃ f', entry'.field = some f' ∧ f'.key = f.key ∧ f'.value = f.value

/-- What the current file is after the merge. -/
structure Merges (backup current merged : ParsedIni) : Prop where
  head : merged.head = current.head
  suffix : merged.suffix = current.suffix
  entries : List.Forall₂ (EntryMerged backup) current.entries merged.entries
  occurs : ∀ f ∈ backup.fields, IsRestoredKey f.key →
    ∃ f' ∈ merged.fields, f'.key = f.key ∧ f'.value = f.value

section Merge

variable {content backupContent currentContent merged : Str} {backup current parsed : ParsedIni}
  {replacements : List (Str × Str)} {entry : IniEntry} {key v : Str}

/-- The keys whose values the merge takes over. -/
theorem isRestored_iff : isRestored key = true ↔ IsRestoredKey key := by
  rw [isRestored, IsRestoredKey]
  cases settingDefinition key <;> simp

/-- No secret is taken from a backup. -/
theorem IsSecretKey.not_isRestoredKey (h : IsSecretKey key) : ¬IsRestoredKey key := by
  rintro ⟨d, hd, hkind⟩
  rcases h with ⟨d', hd', hkind'⟩ | ⟨hnone, -⟩
  · rw [hd, Option.some.injEq] at hd'
    exact hkind (hd' ▸ hkind')
  · rw [hd] at hnone
    cases hnone

/-- What a backup has for the settings that a restore takes from it. -/
def ParsedIni.restoredValues (backup : ParsedIni) : List (Str × Str) :=
  (backup.fields.filter fun f => isRestored f.key).map fun f => (f.key, f.value)

/-- **What `merge_palworld_settings` checks**, and what it returns. -/
theorem mergePalworldSettings_eq_ok :
    mergePalworldSettings backupContent currentContent = .ok merged ↔
      ∃ backup current mergedIni, parseIni backupContent = .ok backup ∧
        parseIni currentContent = .ok current ∧ parseIni merged = .ok mergedIni ∧
        merged = current.render backup.restoredValues ∧
        ((backup.fields.map IniValue.key).Nodup ∧ (current.fields.map IniValue.key).Nodup ∧
          (mergedIni.fields.map IniValue.key).Nodup) ∧
        (validateKnownValues backup.fields = .ok () ∧ validateKnownValues current.fields = .ok () ∧
          validateKnownValues mergedIni.fields = .ok ()) ∧
        (∀ f ∈ backup.fields, isRestored f.key = true → f.key ∈ current.fields.map IniValue.key) ∧
        checkSecrets mergedIni.fields current.fields = .ok () := by
  rw [mergePalworldSettings]
  simp only [except_bind_eq_ok, orMergeUnsafe_eq_ok, uniqueIniEntries_eq_ok,
    mergeReplacements_eq_ok]
  constructor
  · rintro ⟨backup, hbackup, current, hcurrent, _, ⟨rfl, hb⟩, _, ⟨rfl, hc⟩, ⟨⟩, hvc, ⟨⟩, hvb,
      _, ⟨rfl, hpresent⟩, mergedIni, hmerged, _, ⟨rfl, hm⟩, ⟨⟩, hvm, ⟨⟩, hsecrets, hpure⟩
    obtain rfl : current.render _ = merged := by simpa [pure, Except.pure] using hpure
    exact ⟨backup, current, mergedIni, hbackup, hcurrent, hmerged, rfl, ⟨hb, hc, hm⟩,
      ⟨hvb, hvc, hvm⟩, hpresent, hsecrets⟩
  · rintro ⟨backup, current, mergedIni, hbackup, hcurrent, hmerged, rfl, ⟨hb, hc, hm⟩,
      ⟨hvb, hvc, hvm⟩, hpresent, hsecrets⟩
    exact ⟨backup, hbackup, current, hcurrent, _, ⟨rfl, hb⟩, _, ⟨rfl, hc⟩, (), hvc, (), hvb, _,
      ⟨rfl, hpresent⟩, mergedIni, hmerged, _, ⟨rfl, hm⟩, (), hvm, (), hsecrets, rfl⟩

/-- The entries of a file are what is read of their texts. -/
theorem parseEntry_of_mem (h : parseIni content = .ok parsed) (he : entry ∈ parsed.entries) :
    IsEntry entry.raw ∧ parseEntry entry.raw = entry := by
  obtain ⟨_, es, _, -, -, hes, -, hentries, -⟩ := exists_entries h
  rw [hentries] at he
  obtain ⟨raw, hraw, rfl⟩ := List.mem_map.mp he
  rw [parseEntry_raw]
  exact ⟨hes raw hraw, rfl⟩

/-- **What a backup restores** may be put in the place of a value. -/
theorem isValue_restoredValues (h : parseIni content = .ok parsed) :
    ∀ r ∈ parsed.restoredValues, IsValue r.2 := by
  intro r hr
  obtain ⟨f, hf, rfl⟩ := List.mem_map.mp hr
  obtain ⟨entry, hentry, hfield⟩ := List.mem_filterMap.mp (List.mem_filter.mp hf).1
  obtain ⟨hraw, hparse⟩ := parseEntry_of_mem h hentry
  exact isValue_value hraw (by rwa [hparse])

/-- What the merge takes for a key is the value of its field in the backup. -/
theorem lookup_restoredValues (h : (backup.fields.map IniValue.key).Nodup) :
    backup.restoredValues.lookup key = some v ↔
      IsRestoredKey key ∧ ∃ f ∈ backup.fields, f.key = key ∧ f.value = v := by
  rw [ParsedIni.restoredValues, lookup_replacements h, isRestored_iff]

/-- An entry without a replacement is read as it was. -/
theorem parseEntry_render_of_kept (hentry : parseEntry entry.raw = entry)
    (hkept : ∀ key, entry.key = some key → replacements.lookup key = none) :
    parseEntry (entry.render replacements) = entry := by
  rcases render_cases replacements entry with ⟨hsame, -⟩ | ⟨f, v, hf, hv, -⟩
  · rw [hsame, hentry]
  · have hkey : entry.key = some f.key := by rw [IniEntry.key, hf, Option.map_some]
    rw [hkept f.key hkey] at hv
    cases hv

/-- **The merge entry by entry.** -/
theorem entryMerged (hbackup : parseIni backupContent = .ok backup)
    (hnodup : (backup.fields.map IniValue.key).Nodup) (hentry : IsEntry entry.raw)
    (hparse : parseEntry entry.raw = entry) :
    EntryMerged backup entry (parseEntry (entry.render backup.restoredValues)) := by
  have hnone {key : Str} (h : ¬(IsRestoredKey key ∧ ∃ f ∈ backup.fields, f.key = key)) :
      backup.restoredValues.lookup key = none := by
    rw [Option.eq_none_iff_forall_ne_some]
    intro v hv
    obtain ⟨hrestored, f, hf, hkey, -⟩ := (lookup_restoredValues hnodup).mp hv
    exact h ⟨hrestored, f, hf, hkey⟩
  have hkept (h : ∀ key, entry.key = some key →
      ¬(IsRestoredKey key ∧ ∃ f ∈ backup.fields, f.key = key)) :
      parseEntry (entry.render backup.restoredValues) = entry :=
    parseEntry_render_of_kept hparse fun key hkey => hnone (h key hkey)
  constructor
  case malformed =>
    intro hmalformed
    refine hkept fun key hkey => ?_
    rw [hmalformed] at hkey
    cases hkey
  case secret =>
    intro key hkey hsecret
    refine hkept fun key' hkey' hrestored => ?_
    obtain rfl : key = key' := Option.some.inj (hkey.symm.trans hkey')
    exact hsecret.not_isRestoredKey hrestored.1
  case unknown =>
    intro key hkey hunknown
    refine hkept fun key' hkey' ⟨⟨d, hd, _⟩, _⟩ => ?_
    obtain rfl : key = key' := Option.some.inj (hkey.symm.trans hkey')
    rw [hunknown] at hd
    cases hd
  case absent =>
    intro key hkey habsent
    refine hkept fun key' hkey' ⟨_, f, hf, hfkey⟩ => ?_
    obtain rfl : key = key' := Option.some.inj (hkey.symm.trans hkey')
    exact habsent f hf hfkey
  case restored =>
    intro f hf hrestored hkey
    have hlookup : backup.restoredValues.lookup f.key = some f.value :=
      (lookup_restoredValues hnodup).mpr ⟨hrestored, f, hf, rfl, rfl⟩
    obtain ⟨g, hg, hgkey⟩ := Option.map_eq_some_iff.mp hkey
    have hrender : entry.render backup.restoredValues = entry.replaceValue g f.value := by
      simp only [IniEntry.render, hg, hgkey, hlookup]
    have hvalue := isValue_restoredValues hbackup _ (mem_of_lookup hlookup)
    rw [← hparse] at hg
    obtain ⟨-, f', hf', hkey', hvalue'⟩ := parseEntry_replaceValue hentry hg hvalue
    rw [hparse] at hf'
    exact ⟨f', by rw [hrender, hf'], hkey'.trans hgkey, hvalue'⟩

/-- **What a merge of PalWorldSettings.ini does.**  What is read of the result is the
current file entry by entry: the secrets, what the manager does not know and what the
backup does not have stay as they are, and the other values are those of the backup. -/
theorem mergePalworldSettings_merges
    (h : mergePalworldSettings backupContent currentContent = .ok merged) :
    ∃ backup current mergedIni, parseIni backupContent = .ok backup ∧
      parseIni currentContent = .ok current ∧ parseIni merged = .ok mergedIni ∧
      Merges backup current mergedIni := by
  obtain ⟨backup, current, mergedIni, hbackup, hcurrent, hmerged, rfl, ⟨hnodup, -⟩, -, hpresent, -⟩ :=
    mergePalworldSettings_eq_ok.mp h
  have hread := parseIni_render_eq_ok hcurrent (isValue_restoredValues hbackup) hmerged
  have hall : ∀ entry ∈ current.entries,
      EntryMerged backup entry (parseEntry (entry.render backup.restoredValues)) := fun entry he =>
    let ⟨hentry, hparse⟩ := parseEntry_of_mem hcurrent he
    entryMerged hbackup hnodup hentry hparse
  refine ⟨backup, current, mergedIni, hbackup, hcurrent, hmerged, by rw [hread], by rw [hread], ?_, ?_⟩
  · rw [hread, List.forall₂_map_right_iff, List.forall₂_same]
    exact hall
  · intro f hf hrestored
    obtain ⟨g, hg, hgkey⟩ := List.mem_map.mp (hpresent f hf (isRestored_iff.mpr hrestored))
    obtain ⟨entry, he, hfield⟩ := List.mem_filterMap.mp hg
    have hkey : entry.key = some f.key := by rw [IniEntry.key, hfield, Option.map_some, hgkey]
    obtain ⟨f', hf', hresult⟩ := (hall entry he).restored f hf hrestored hkey
    refine ⟨f', ?_, hresult⟩
    rw [hread]
    exact List.mem_filterMap.mpr ⟨_, List.mem_map.mpr ⟨entry, he, rfl⟩, hf'⟩

/-- A merge over a file with two secrets and an entry that has no key. -/
theorem mergePalworldSettings_merges_secrets :
    ∃ backup current mergedIni,
      parseIni (str ("[/Script/Pal.PalGameWorldSettings]\nOptionSettings=(" ++
        "AdminPassword=\"\",ServerName=\"B\",FuturePassword=\"\")")) = .ok backup ∧
      parseIni (str ("[/Script/Pal.PalGameWorldSettings]\nOptionSettings=(" ++
        "ServerName= A ,AdminPassword=\"a,b\",Bad,FuturePassword=x)")) = .ok current ∧
      parseIni (str ("[/Script/Pal.PalGameWorldSettings]\nOptionSettings=(" ++
        "ServerName= \"B\" ,AdminPassword=\"a,b\",Bad,FuturePassword=x)")) = .ok mergedIni ∧
      Merges backup current mergedIni :=
  mergePalworldSettings_merges (by decide +kernel)

end Merge

end PalworldManager
