/-
# The form of the settings

`palworld_settings/service.py`: what the page shows of the file (`_inspect`), and what
it does with the form (`save`).
-/

import PalworldManager.PalworldSettings.Storage

namespace PalworldManager

open Effects Text
open Effects.Exec hiding bind ask

/-- `SettingFieldView`: of the definition, and what the page shows of the value. -/
structure SettingFieldView where
  definition : SettingDefinition
  value : Option Str
  editable : Bool
  issue : Option String
  deriving DecidableEq

/-- `PalworldSettingsSnapshot`; a category that has no field is left out. -/
structure PalworldSettingsSnapshot where
  version : String
  categories : List (SettingCategory × List SettingFieldView)
  unknownKeys : List Str
  malformedEntries : ℕ
  deriving DecidableEq

/-- The fields that may be edited, in the order of the page. -/
def PalworldSettingsSnapshot.editableFields (snapshot : PalworldSettingsSnapshot) :
    List SettingFieldView :=
  (snapshot.categories.flatMap Prod.snd).filter SettingFieldView.editable

/-- `PalworldSettingsSnapshot.editable_keys`. -/
def PalworldSettingsSnapshot.editableKeys (snapshot : PalworldSettingsSnapshot) : List Str :=
  snapshot.editableFields.map fun field => field.definition.key

/-- `_InspectedSettings`, whose `fields` are those of the categories. -/
structure InspectedSettings where
  parsed : ParsedIni
  snapshot : PalworldSettingsSnapshot
  deriving DecidableEq

/-- `PalworldSettingsSaveResult`. -/
structure PalworldSettingsSaveResult where
  snapshot : PalworldSettingsSnapshot
  changedFields : List Str
  backupName : Option String
  deriving DecidableEq

/-- What the page says of a file that cannot be parsed. -/
def unsafeFormat : SettingsError :=
  .validation "O formato do PalWorldSettings.ini não pôde ser validado com segurança."

section Inspect

/-- A field that is not editable. -/
def preservedField (definition : SettingDefinition) (issue : String) : SettingFieldView :=
  ⟨definition, none, false, some issue⟩

/-- `_field_view`. -/
def fieldView (definition : SettingDefinition) (entries : List IniEntry) : SettingFieldView :=
  match entries with
  | [entry] =>
      if definition.kind = .sensitive then
        preservedField definition "Valor sensível ocultado e preservado sem edição."
      else if definition.kind = .readOnly then
        preservedField definition "Estrutura reconhecida e preservada sem edição nesta versão."
      else
        match entry.field with
        | none =>
            preservedField definition "O valor não pôde ser interpretado e foi preservado."
        | some field =>
            match parseSettingValue definition field.value with
            | .error _ =>
                preservedField definition "O valor usa um formato não suportado e foi preservado."
            | .ok value => ⟨definition, some value, true, none⟩
  | _ => preservedField definition "A chave aparece mais de uma vez e foi preservada sem edição."

/-- The entries of a key. -/
def ParsedIni.entriesOf (parsed : ParsedIni) (key : Str) : List IniEntry :=
  parsed.entries.filter fun entry => entry.key = some key

/-- The field of a definition, if the file has its key. -/
def ParsedIni.fieldOf (parsed : ParsedIni) (definition : SettingDefinition) :
    Option SettingFieldView :=
  if parsed.entriesOf definition.key = [] then none
  else some (fieldView definition (parsed.entriesOf definition.key))

/-- `fields_by_category[category]`. -/
def ParsedIni.fieldsOf (parsed : ParsedIni) (category : SettingCategory) : List SettingFieldView :=
  (settingDefinitions.filter fun definition => definition.category = category).filterMap
    parsed.fieldOf

/-- `sorted`. -/
def sortKeys (keys : List Str) : List Str := keys.mergeSort fun key key' => decide (key ≤ key')

/-- `_inspect`. -/
def inspect (stored : StoredSettings) : Except SettingsError InspectedSettings :=
  match parseIni stored.content with
  | .error _ => .error unsafeFormat
  | .ok parsed =>
      let malformed := parsed.entries.filter fun entry =>
        entry.key = none ∧ Str.strip entry.raw ≠ []
      let unknown := (parsed.entries.filterMap IniEntry.key).filter fun key =>
        (settingDefinition key).isNone
      .ok
        { parsed := parsed
          snapshot :=
            { version := stored.version
              categories := settingCategories.filterMap fun category =>
                if parsed.fieldsOf category = [] then none
                else some (category, parsed.fieldsOf category)
              unknownKeys := sortKeys unknown.dedup
              malformedEntries := malformed.length } }

end Inspect

section Save

/-- The loop of `save`: the fields whose value is another one, with the texts that are
to replace theirs. -/
def collectReplacements (updates : List (Str × Str)) :
    List SettingFieldView → Except SettingValueError (List (Str × Str))
  | [] => .ok []
  | field :: fields => do
      let text := (updates.lookup field.definition.key).getD []
      let submitted ← parseSettingValue field.definition text
      if some submitted ≠ field.value then
        let serialized ← serializeSettingValue field.definition text
        let replacements ← collectReplacements updates fields
        pure ((field.definition.key, serialized) :: replacements)
      else collectReplacements updates fields

/-- `safe_requested_keys`. -/
def safeRequestedKeys (updates : List (Str × Str)) : List Str :=
  sortKeys ((updates.map Prod.fst).dedup.filter fun key => (settingDefinition key).isSome)

/-- `received_keys == expected_keys`, of two sets. -/
def sameKeys (received expected : List Str) : Bool :=
  received.all (· ∈ expected) && expected.all (· ∈ received)

/-- `_audit`. -/
def audit (administratorUserId : ℕ) (result : AuditResult) (changedFields : List Str)
    (backupName errorKind : Option String) : SettingsM Unit := do
  let occurredAt ← clock
  tx (fun file => ((), file)) fun _ =>
    .audit ⟨occurredAt, administratorUserId, result, changedFields, backupName, errorKind⟩

variable (sha256 : ByteArray → String) (path : SettingsPath)

/-- `load`. -/
def load : SettingsM PalworldSettingsSnapshot := do
  let stored ← read sha256 path
  let inspected ← ofExcept (inspect stored)
  pure inspected.snapshot

/-- The end of `save`, once there is something to replace. -/
def saveReplacements (expectedVersion : String) (administratorUserId : ℕ) (parsed : ParsedIni)
    (replacements : List (Str × Str)) : SettingsM PalworldSettingsSaveResult := do
  let rendered := parsed.render replacements
  let _ ← ofExcept ((parseIni rendered).mapError .parse)
  let backupName ← write sha256 path expectedVersion rendered
  let stored ← read sha256 path
  let updated ← ofExcept (inspect stored)
  let changed := replacements.map Prod.fst
  audit administratorUserId .success changed (some backupName) none
  pure ⟨updated.snapshot, changed, some backupName⟩

/-- The body of the `try` of `save`. -/
def saveBody (updates : List (Str × Str)) (expectedVersion : String)
    (administratorUserId : ℕ) : SettingsM PalworldSettingsSaveResult := do
  let stored ← read sha256 path
  raiseIf (stored.version ≠ expectedVersion) (.storage .conflict)
  let inspected ← ofExcept (inspect stored)
  raiseIf (sameKeys (updates.map Prod.fst) inspected.snapshot.editableKeys = false) (.validation
    "Os campos enviados não correspondem ao arquivo aberto. Recarregue a página.")
  let replacements ← ofExcept
    ((collectReplacements updates inspected.snapshot.editableFields).mapError .value)
  if replacements = [] then do
    audit administratorUserId .success [] none none
    pure ⟨inspected.snapshot, [], none⟩
  else
    saveReplacements sha256 path expectedVersion administratorUserId inspected.parsed replacements

/-- The handlers of `save`. -/
def saveError (updates : List (Str × Str)) (administratorUserId : ℕ) (error : SettingsError) :
    SettingsM PalworldSettingsSaveResult :=
  let auditFailure (errorKind : String) :=
    audit administratorUserId .failure (safeRequestedKeys updates) none (some errorKind)
  match error with
  | .value error => do
      auditFailure "validation"
      raise (.validation error.message)
  | .parse _ => do
      auditFailure "validation"
      raise unsafeFormat
  | .validation message => do
      auditFailure "validation"
      raise (.validation message)
  | .storage kind => do
      auditFailure kind.value
      raise (.storage kind)
  | .os error => raise (.os error)
  | .unicodeEncode => raise .unicodeEncode

/-- `save`. -/
def save (updates : List (Str × Str)) (expectedVersion : String) (administratorUserId : ℕ) :
    SettingsM PalworldSettingsSaveResult :=
  tryCatch (saveBody sha256 path updates expectedVersion administratorUserId)
    (saveError updates administratorUserId)

end Save

end PalworldManager
