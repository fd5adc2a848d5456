/-
# PalWorldSettings.ini

`palworld_settings/ini.py`: the parser of the option tuple, which keeps every text
between its values, and the conversions of the values.

A pattern is given a place of a text, the character before it and what follows, and
returns what follows the match that `re` would choose there.
-/

import PalworldManager.PalworldSettings.Definitions
import PalworldManager.Text.Decimal
import PalworldManager.Text.Json

namespace PalworldManager

open Text

/-- `IniParseError`. -/
structure IniParseError where
  message : String
  deriving DecidableEq, Repr

/-- `SettingValueError`. -/
structure SettingValueError where
  message : String
  deriving DecidableEq, Repr

section Patterns

/-- A pattern of the module `re`. -/
abbrev Pattern := Option Point → Str → Option Str

/-- `^` under `re.MULTILINE`. -/
def atLineStart (before : Option Point) : Bool := before.all (· == newline)

/-- `\s*$` under `re.MULTILINE`: as much white space as leads to the end of a line. -/
def spacesToLineEnd : Str → Option Str
  | [] => some []
  | c :: t =>
      if c.isSpace then
        match spacesToLineEnd t with
        | some rest => some rest
        | none => if c = newline then some (c :: t) else none
      else none

/-- `[ \t]`. -/
def isTab (c : Point) : Bool := c == 32 || c == 9

/-- A text of a pattern. -/
def literal (word : Str) (t : Str) : Option Str :=
  if word.isPrefixOf t then some (t.drop word.length) else none

/-- `SECTION_NAME` in brackets. -/
def sectionHeader : Str := str "[/Script/Pal.PalGameWorldSettings]"

/-- `SECTION_PATTERN`. -/
def sectionPattern : Pattern := fun before t => do
  guard (atLineStart before)
  let rest ← literal sectionHeader (t.dropWhile Point.isSpace)
  spacesToLineEnd rest

/-- `[^\]\r\n]`. -/
def isSectionName (c : Point) : Bool := c != .ofChar ']' && c != .ofChar '\r' && c != newline

/-- `NEXT_SECTION_PATTERN`. -/
def nextSectionPattern : Pattern := fun before t => do
  guard (atLineStart before)
  let name ← literal (str "[") (t.dropWhile Point.isSpace)
  guard (name.takeWhile isSectionName ≠ [])
  let rest ← literal (str "]") (name.dropWhile isSectionName)
  spacesToLineEnd rest

/-- `OPTION_PATTERN`. -/
def optionPattern : Pattern := fun before t => do
  guard (atLineStart before)
  let t ← literal (str "OptionSettings") (t.dropWhile isTab)
  let t ← literal (str "=") (t.dropWhile isTab)
  literal (str "(") (t.dropWhile isTab)

/-- `pattern.finditer`, of a pattern that does not match the empty text: where each
match starts and ends.  The text is at an index, and so many of its characters are
part of the match before. -/
def finditer (pattern : Pattern) : ℕ → ℕ → Option Point → Str → List (ℕ × ℕ)
  | _, _, _, [] => []
  | i, k + 1, _, c :: t => finditer pattern (i + 1) k (some c) t
  | i, 0, before, c :: t =>
      match pattern before (c :: t) with
      | some rest =>
          (i, i + (t.length + 1 - rest.length)) ::
            finditer pattern (i + 1) (t.length - rest.length) (some c) t
      | none => finditer pattern (i + 1) 0 (some c) t

/-- `pattern.search`: where the first match starts. -/
def searchFrom (pattern : Pattern) : ℕ → Option Point → Str → Option ℕ
  | _, _, [] => none
  | i, before, c :: t =>
      if (pattern before (c :: t)).isSome then some i else searchFrom pattern (i + 1) (some c) t

end Patterns

section Scanner

/-- The flags `quoted` and `escaped` of a scan. -/
inductive Quoting where
  | outside | quoted | escaped
  deriving DecidableEq, Repr

/-- The flags after a character. -/
def Quoting.next : Quoting → Point → Quoting
  | .outside, c => if c = quotation then .quoted else .outside
  | .quoted, c => if c = backslash then .escaped else if c = quotation then .outside else .quoted
  | .escaped, _ => .quoted

/-- The depth after a character. -/
def Quoting.depth (q : Quoting) (c : Point) (depth : ℤ) : ℤ :=
  if q = .outside then
    if c = .ofChar '(' then depth + 1 else if c = .ofChar ')' then depth - 1 else depth
  else depth

/-- `_find_closing_parenthesis`, from the index on where the text starts. -/
def findClosingParenthesis : ℤ → Quoting → Str → Option ℕ
  | _, _, [] => none
  | depth, q, c :: t =>
      let depth' := q.depth c depth
      if q = .outside ∧ c = .ofChar ')' ∧ depth' = 0 then some 0
      else if q = .outside ∧ c = .ofChar ')' ∧ depth' < 0 then none
      else (findClosingParenthesis depth' (q.next c) t).map (· + 1)

/-- A character more at the start of the first entry. -/
def consEntry (c : Point) : List Str → List Str
  | [] => [[c]]
  | entry :: entries => (c :: entry) :: entries

/-- The loop of `_split_entries`: the entry that is being read, and those after it. -/
def splitFrom : ℤ → Quoting → Str → Except IniParseError (List Str)
  | depth, q, [] =>
      if q ≠ .outside ∨ depth ≠ 0 then .error ⟨"OptionSettings possui valor composto inválido"⟩
      else .ok [[]]
  | depth, q, c :: t =>
      if q = .outside ∧ c = .ofChar ')' ∧ depth = 0 then
        .error ⟨"valor composto possui parênteses inválidos"⟩
      else if q = .outside ∧ c = .ofChar ',' ∧ depth = 0 then
        (splitFrom depth q t).map ([] :: ·)
      else (splitFrom (q.depth c depth) (q.next c) t).map (consEntry c)

/-- `_split_entries`. -/
def splitEntries (inner : Str) : Except IniParseError (List Str) :=
  if inner = [] then .ok [] else splitFrom 0 .outside inner

/-- `_top_level_equal`. -/
def topLevelEqual : ℤ → Quoting → Str → Option ℕ
  | _, _, [] => none
  | depth, q, c :: t =>
      if q = .outside ∧ c = .ofChar '=' ∧ depth = 0 then some 0
      else (topLevelEqual (q.depth c depth) (q.next c) t).map (· + 1)

end Scanner

section Entries

/-- The fields of an `IniEntry` that are `None` unless it has a key. -/
structure IniValue where
  key : Str
  value : Str
  valueStart : ℕ
  valueEnd : ℕ
  deriving DecidableEq, Repr

/-- `IniEntry`. -/
structure IniEntry where
  raw : Str
  field : Option IniValue
  deriving DecidableEq, Repr

/-- `IniEntry.key`. -/
def IniEntry.key (entry : IniEntry) : Option Str := entry.field.map IniValue.key

/-- `IniEntry.replace_value`, of an entry that has a key. -/
def IniEntry.replaceValue (entry : IniEntry) (field : IniValue) (serialized : Str) : Str :=
  entry.raw.take field.valueStart ++ serialized ++ entry.raw.drop field.valueEnd

/-- `KEY_PATTERN.fullmatch(key)`. -/
def isIniKey : Str → Bool
  | [] => false
  | c :: t =>
      let isLetter (c : Point) : Bool := (65 ≤ c && c ≤ 90) || (97 ≤ c && c ≤ 122)
      isLetter c && t.all fun d => isLetter d || (48 ≤ d && d ≤ 57) || d == .ofChar '_'

/-- The value of an entry whose equal sign stands at an index. -/
def parseValue (raw : Str) (equalIndex : ℕ) : IniValue :=
  let afterEqual := raw.drop (equalIndex + 1)
  let leading := afterEqual.length - (Str.lstrip afterEqual).length
  let trailing := afterEqual.length - (Str.rstrip afterEqual).length
  let valueStart := equalIndex + 1 + leading
  let valueEnd := raw.length - trailing
  { key := Str.strip (raw.take equalIndex)
    value := if valueEnd ≤ valueStart then [] else (raw.take valueEnd).drop valueStart
    valueStart := valueStart
    valueEnd := valueEnd }

/-- `_parse_entry`. -/
def parseEntry (raw : Str) : IniEntry :=
  match topLevelEqual 0 .outside raw with
  | none => ⟨raw, none⟩
  | some equalIndex =>
      if isIniKey (Str.strip (raw.take equalIndex)) then ⟨raw, some (parseValue raw equalIndex)⟩
      else ⟨raw, none⟩

/-- `ParsedIni`. -/
structure ParsedIni where
  head : Str
  entries : List IniEntry
  suffix : Str
  deriving DecidableEq, Repr

/-- An entry of `ParsedIni.render`. -/
def IniEntry.render (replacements : List (Str × Str)) (entry : IniEntry) : Str :=
  match entry.field with
  | none => entry.raw
  | some field =>
      match replacements.lookup field.key with
      | some serialized => entry.replaceValue field serialized
      | none => entry.raw

/-- `",".join(entries)`. -/
def joinEntries (entries : List Str) : Str := [Point.ofChar ','].intercalate entries

/-- `ParsedIni.render`. -/
def ParsedIni.render (parsed : ParsedIni) (replacements : List (Str × Str)) : Str :=
  parsed.head ++ joinEntries (parsed.entries.map (IniEntry.render replacements)) ++ parsed.suffix

/-- `parse_ini` once the section is found, which goes from one index to another. -/
def parseSection (content : Str) (sectionStart sectionEnd : ℕ) : Except IniParseError ParsedIni :=
  match finditer optionPattern 0 0 none ((content.take sectionEnd).drop sectionStart) with
  | [(_, optionEnd)] =>
      let openingIndex := sectionStart + optionEnd - 1
      match findClosingParenthesis 0 .outside (content.drop openingIndex) with
      | none => .error ⟨"OptionSettings possui parênteses ou aspas inválidos"⟩
      | some n =>
          let closingIndex := openingIndex + n
          if sectionEnd ≤ closingIndex then
            .error ⟨"OptionSettings ultrapassa os limites da seção"⟩
          else do
            let entries ← splitEntries ((content.take closingIndex).drop (openingIndex + 1))
            pure
              { head := content.take (openingIndex + 1)
                entries := entries.map parseEntry
                suffix := content.drop closingIndex }
  | _ => .error ⟨"a seção deve conter exatamente um OptionSettings"⟩

/-- `parse_ini`. -/
def parseIni (content : Str) : Except IniParseError ParsedIni :=
  match finditer sectionPattern 0 0 none content with
  | [(_, sectionStart)] =>
      let nextSection := searchFrom nextSectionPattern sectionStart
        (content.take sectionStart).getLast? (content.drop sectionStart)
      parseSection content sectionStart (nextSection.getD content.length)
  | _ => .error
      ⟨"o arquivo deve conter exatamente uma seção /Script/Pal.PalGameWorldSettings"⟩

end Entries

section Values

/-- `INTEGER_PATTERN.fullmatch(t)`. -/
def isInteger (t : Str) : Bool :=
  let (_, digits) := spanSign t
  digits ≠ [] && digits.all fun c => c.digit.isSome

/-- `Decimal(t)` of an integer. -/
def integerDecimal (t : Str) : FiniteDecimal :=
  let (negative, digits) := spanSign t
  ⟨negative, digitsValue digits, 0⟩

/-- A bound of a definition as a number. -/
def boundDecimal (bound : String) : Option FiniteDecimal :=
  match parseDecimal (str bound) with
  | some (.finite d) => some d
  | _ => none

/-- `_validate_range`. -/
def validateRange (definition : SettingDefinition) (value : FiniteDecimal) :
    Except SettingValueError Unit :=
  if (definition.minimum.bind boundDecimal).any value.lt then
    .error ⟨"deve ser maior ou igual a " ++ definition.minimum.getD ""⟩
  else if (definition.maximum.bind boundDecimal).any fun bound => bound.lt value then
    .error ⟨"deve ser menor ou igual a " ++ definition.maximum.getD ""⟩
  else .ok ()

/-- `_parse_string`. -/
def parseString (raw : Str) : Except SettingValueError Str :=
  let normalized := Str.strip raw
  if normalized.head? = some quotation then
    match jsonLoads normalized with
    | some value => .ok value
    | none => .error ⟨"possui texto entre aspas inválido"⟩
  else .ok normalized

/-- `MAX_STRING_LENGTH`. -/
def maxStringLength : ℕ := 2048

/-- `parse_setting_value`. -/
def parseSettingValue (definition : SettingDefinition) (raw : Str) : Except SettingValueError Str :=
  match definition.kind with
  | .boolean =>
      let normalized := (Str.strip raw).map Point.lower
      if normalized = str "true" then .ok (str "True")
      else if normalized = str "false" then .ok (str "False")
      else .error ⟨"deve ser True ou False"⟩
  | .integer =>
      let normalized := Str.strip raw
      if isInteger normalized then
        (validateRange definition (integerDecimal normalized)).map fun _ => normalized
      else .error ⟨"deve ser um número inteiro"⟩
  | .number =>
      let normalized := Str.strip raw
      match parseDecimal normalized with
      | none => .error ⟨"deve ser um número"⟩
      | some .special => .error ⟨"deve ser um número finito"⟩
      | some (.finite value) => (validateRange definition value).map fun _ => normalized
  | .enum => do
      let value ← parseString raw
      if value ∈ definition.options then pure value else .error ⟨"possui uma opção inválida"⟩
  | .string => do
      let value ← parseString raw
      if maxStringLength < value.length then .error ⟨"deve ter no máximo 2048 caracteres"⟩
      else if 0 ∈ value ∨ 13 ∈ value ∨ newline ∈ value then
        .error ⟨"não pode conter caracteres de controle ou quebras de linha"⟩
      else pure value
  | .readOnly | .sensitive => .error ⟨"não é editável"⟩

/-- `serialize_setting_value`. -/
def serializeSettingValue (definition : SettingDefinition) (value : Str) :
    Except SettingValueError Str :=
  (parseSettingValue definition value).map fun normalized =>
    if definition.kind = .string then jsonDumps normalized else normalized

end Values

example : (parseIni (str
    "[/Script/Pal.PalGameWorldSettings]\nOptionSettings=(A=1,B=\"x, (y\",C)\n")).map
      (fun parsed => parsed.entries.map fun entry => entry.field.map fun f => (f.key, f.value)) =
    .ok [some (str "A", str "1"), some (str "B", str "\"x, (y\""), none] := by
  decide

end PalworldManager
