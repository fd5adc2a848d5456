/-
# What a backup leaves out of the settings

`_redact_palworld_settings` and `_redact_generic_ini` (`backups/source.py`): the values of
sensitive keys are replaced before PalWorldSettings.ini and GameUserSettings.ini go into a
backup.  Of PalWorldSettings.ini the text that goes in does not depend on them
(`redact_indistinguishable`).
-/

import PalworldManager.PalworldSettings.Edits
import PalworldManager.Text.Lines
import PalworldManager.Text.Regex
import PalworldManager.Text.Utf8

namespace PalworldManager

open Text

/-- `SENSITIVE_KEY_PATTERN`. -/
def sensitiveKeyPattern : Regex :=
  Regex.any (Regex.lit "password")
    [.lit "passwd", .lit "secret", .lit "token", .lit "cookie", .lit "webhook",
      .lit "credential",
      .cat [.lit "api", .opt (.char fun c => c == '_' || c == '-'), .lit "key"]]

/-- `SENSITIVE_KEY_PATTERN.search(key)`.  No letter of the pattern stands for a lone
surrogate. -/
def isSensitiveName (key : Str) : Bool :=
  sensitiveKeyPattern.search (key.map fun c => c.toChar.getD '?')

/-- The set `sensitive` of `_redact_palworld_settings`. -/
def sensitiveKeys : List Str :=
  (settingDefinitions.filter fun d => d.kind = .sensitive).map SettingDefinition.key

/-- A key whose value is left out. -/
def isSensitiveKey (key : Str) : Bool := key ∈ sensitiveKeys || isSensitiveName key

/-- What is put in the place of a value. -/
def redacted : Str := str "\"\""

/-- The sensitive keys of some entries, each with one text. -/
def secretsAs (v : Str) (entries : List IniEntry) : List (Str × Str) :=
  ((entries.filterMap IniEntry.key).filter isSensitiveKey).map fun key => (key, v)

/-- The replacements of `_redact_palworld_settings`. -/
abbrev redactions (entries : List IniEntry) : List (Str × Str) := secretsAs redacted entries

/-- `_redact_palworld_settings`. -/
def redactPalworldSettings (content : Str) : Except IniParseError Str := do
  let parsed ← parseIni content
  pure (parsed.render (redactions parsed.entries))

/-- The key and the value of a line of GameUserSettings.ini that has a secret. -/
def genericSecret (line : List Char) : Option (List Char × List Char) :=
  (partition '=' line).filter fun r => sensitiveKeyPattern.search (strip r.1)

/-- The `ending` of a line: not every line boundary is one. -/
def keptEnding (line : List Char) : List Char :=
  if ['\r', '\n'] <:+ line then ['\r', '\n'] else if ['\n'] <:+ line then ['\n'] else []

/-- A line of `_redact_generic_ini`. -/
def redactGenericLine (line : List Char) : List Char :=
  match genericSecret line with
  | some (key, _) => key ++ ['=', '"', '"'] ++ keptEnding line
  | none => line

/-- `_redact_generic_ini`. -/
def redactGenericIni (content : List Char) : List Char :=
  ((splitLines content).map fun l => redactGenericLine l.full).flatten

/-- Two entries that are the same, or that differ in the value of a sensitive key and in
nothing else.  Neither value is blank. -/
def SameButSecret (e₁ e₂ : IniEntry) : Prop :=
  e₁ = e₂ ∨ ∃ key before v₁ v₂ after, isSensitiveKey key = true ∧ v₁ ≠ [] ∧ v₂ ≠ [] ∧
    e₁ = ⟨before ++ v₁ ++ after, some ⟨key, v₁, before.length, before.length + v₁.length⟩⟩ ∧
    e₂ = ⟨before ++ v₂ ++ after, some ⟨key, v₂, before.length, before.length + v₂.length⟩⟩

section Words

variable {cs : List Char} {l c : Char}

/-- The words of `SENSITIVE_KEY_PATTERN`. -/
def sensitiveWords : List (List Char) :=
  ["password", "passwd", "secret", "token", "cookie", "webhook", "credential", "api_key",
    "api-key", "apikey"].map String.toList

/-- The pattern consumes one of the words, in any case. -/
theorem consumes_sensitiveKeyPattern : sensitiveKeyPattern.Consumes fun t =>
    ∃ word ∈ sensitiveWords, List.Forall₂ (fun l c => Regex.sameIgnoringCase l c = true) word t := by
  have hlit {s : String} (hs : s.toList ∈ sensitiveWords) : (Regex.lit s).Consumes fun t =>
      ∃ word ∈ sensitiveWords,
        List.Forall₂ (fun l c => Regex.sameIgnoringCase l c = true) word t :=
    (Regex.consumes_lit s).mono fun t ht => ⟨_, hs, ht⟩
  refine Regex.Consumes.any (hlit (by simp [sensitiveWords])) ?_
  simp only [List.forall_mem_cons, List.not_mem_nil, false_implies, implies_true, and_true]
  refine ⟨hlit (by simp [sensitiveWords]), hlit (by simp [sensitiveWords]),
    hlit (by simp [sensitiveWords]), hlit (by simp [sensitiveWords]), hlit (by simp [sensitiveWords]),
    hlit (by simp [sensitiveWords]), ?_⟩
  have hmiddle := ((Regex.consumes_char fun c => c == '_' || c == '-').mono
    (L := fun t => t ∈ [[], ['_'], ['-']]) (by
      rintro t ⟨c, hc, rfl⟩
      rw [Bool.or_eq_true, beq_iff_eq, beq_iff_eq] at hc
      rcases hc with rfl | rfl <;> simp)).alt (Regex.consumes_empty.mono (by rintro t rfl; simp))
  refine ((Regex.consumes_lit "api").seq (hmiddle.seq
    ((Regex.consumes_lit "key").seq Regex.consumes_empty))).mono ?_
  rintro t ⟨u, _, hu, ⟨m, _, hm, ⟨v, _, hv, rfl, rfl⟩, rfl⟩, rfl⟩
  have hsame {m : List Char} (hm : m ∈ [[], ['_'], ['-']]) :
      List.Forall₂ (fun l c => Regex.sameIgnoringCase l c = true) m m := by
    simp only [List.mem_cons, List.not_mem_nil, or_false] at hm
    rcases hm with rfl | rfl | rfl <;> decide
  refine ⟨"api".toList ++ (m ++ "key".toList), ?_,
    List.rel_append hu (List.rel_append (hsame hm) (by simpa using hv))⟩
  simp only [List.mem_cons, List.not_mem_nil, or_false] at hm
  rcases hm with rfl | rfl | rfl <;> simp [sensitiveWords]

/-- The code point of a letter of ASCII in lower case. -/
def lowerCode (c : Char) : ℕ := if 65 ≤ c.toNat ∧ c.toNat ≤ 90 then c.toNat + 32 else c.toNat

/-- In ASCII, two characters that are the same in some case have one lower case. -/
theorem lowerCode_of_sameIgnoringCase
    (hl : lowerCode l = l.toNat ∧ lowerCode l.toUpper = l.toNat) (hc : c.toNat < 128)
    (h : Regex.sameIgnoringCase l c = true) : lowerCode c = l.toNat := by
  rw [Regex.sameIgnoringCase, Bool.or_eq_true, Bool.or_eq_true, beq_iff_eq, beq_iff_eq,
    decide_eq_true_eq] at h
  rcases h with (rfl | rfl) | h
  · exact hl.1
  · exact hl.2
  · simp only [List.mem_cons, Prod.mk.injEq, List.not_mem_nil, or_false] at h
    rcases h with ⟨-, rfl⟩ | ⟨-, rfl⟩ | ⟨-, rfl⟩ | ⟨-, rfl⟩ | ⟨-, rfl⟩ <;>
      exact absurd hc (by decide)

/-- What is to be checked of a key that is not sensitive. -/
theorem not_isSensitiveName (h : (cs.all fun c => c.toNat < 128) = true ∧
    ∀ word ∈ sensitiveWords, ¬word.map Char.toNat <:+: cs.map lowerCode) :
    isSensitiveName (str (String.ofList cs)) = false := by
  have hchars : (fun c : Point => c.toChar.getD '?') ∘ Point.ofChar = id := by
    funext c
    simp
  rw [isSensitiveName, str, String.toList_ofList, List.map_map, hchars, List.map_id,
    ← Bool.not_eq_true]
  intro hsearch
  obtain ⟨v, hv, word, hword, hsame⟩ := consumes_sensitiveKeyPattern.exists_infix hsearch
  have hwords : (sensitiveWords.all fun word => word.all fun l =>
      lowerCode l == l.toNat && lowerCode l.toUpper == l.toNat) = true := by decide
  have hletters : ∀ word ∈ sensitiveWords, ∀ l ∈ word,
      lowerCode l = l.toNat ∧ lowerCode l.toUpper = l.toNat := fun word hword l hl => by
    simpa using List.all_eq_true.mp (List.all_eq_true.mp hwords word hword) l hl
  have hlower : v.map lowerCode = word.map Char.toNat := by
    have hascii : ∀ c ∈ v, c.toNat < 128 := fun c hc =>
      of_decide_eq_true (List.all_eq_true.mp h.1 c (hv.subset hc))
    have hall := hletters word hword
    clear hword hv
    induction hsame with
    | nil => rfl
    | @cons l c word v hlc _ ih =>
      rw [List.map_cons, List.map_cons, lowerCode_of_sameIgnoringCase (hall l List.mem_cons_self)
        (hascii c List.mem_cons_self) hlc,
        ih (fun c hc => hascii c (List.mem_cons_of_mem _ hc))
          (fun l hl => hall l (List.mem_cons_of_mem _ hl))]
  exact h.2 word hword (hlower ▸ hv.map _)

/-- **The catalogue has no other sensitive names.** -/
theorem kind_of_isSensitiveName : ∀ d ∈ settingDefinitions,
    isSensitiveName d.key = true → d.kind = .sensitive := by
  simp only [settingDefinitions, definition, List.forall_mem_cons]
  repeat' apply And.intro
  -- a secret, a key without the words of the pattern, or the end of the list
  all_goals first
    | exact fun _ => rfl
    | exact fun h => absurd h (Bool.eq_false_iff.mp (not_isSensitiveName (by decide)))
    | simp

end Words

section Redaction

variable {entries entries₁ entries₂ : List IniEntry} {e e₁ e₂ : IniEntry} {c₁ c₂ : Str}
  {parsed parsed₁ parsed₂ : ParsedIni}

/-- Two quotation marks are a value. -/
theorem isValueText_redacted : IsValueText redacted where
  trimmed := ⟨⟨quotation, [quotation], rfl, by decide⟩, ⟨[quotation], quotation, rfl, by decide⟩⟩
  inert _ := rfl
  oneLine := by decide

/-- A secret is looked up if it is one and the file has its key. -/
theorem lookup_secretsAs (v : Str) (entries : List IniEntry) (key : Str) :
    (secretsAs v entries).lookup key =
      if isSensitiveKey key = true ∧ key ∈ entries.filterMap IniEntry.key then some v
      else none := by
  rw [secretsAs]
  induction entries.filterMap IniEntry.key with
  | nil => simp
  | cons k ks ih =>
    by_cases hk : isSensitiveKey k = true
    · rw [List.filter_cons_of_pos hk, List.map_cons, List.lookup_cons, ih]
      by_cases hkey : key = k
      · subst hkey
        simp [hk]
      · have hne : (key == k) = false := by simpa using hkey
        simp [hne, hkey]
    · rw [List.filter_cons_of_neg hk, ih]
      by_cases hkey : key = k
      · subst hkey
        simp [hk]
      · simp [hkey]

/-- How an entry is rendered: it is sensitive, and loses its value, or it stays. -/
theorem render_secretsAs (v : Str) (he : e ∈ entries) :
    e.render (secretsAs v entries) =
      match e.field with
      | none => e.raw
      | some f => if isSensitiveKey f.key = true then e.replaceValue f v else e.raw := by
  rw [IniEntry.render]
  cases hf : e.field with
  | none => rfl
  | some f =>
    have hkey : e.key = some f.key := by rw [IniEntry.key, hf, Option.map_some]
    have hmem : f.key ∈ entries.filterMap IniEntry.key := List.mem_filterMap.mpr ⟨e, he, hkey⟩
    simp only [lookup_secretsAs, hmem, and_true]
    split_ifs <;> rfl

/-- Of two entries that differ in a secret the same is left. -/
theorem SameButSecret.render (h : SameButSecret e₁ e₂) (he₁ : e₁ ∈ entries₁) (he₂ : e₂ ∈ entries₂) :
    e₁.render (redactions entries₁) = e₂.render (redactions entries₂) := by
  rw [render_secretsAs _ he₁, render_secretsAs _ he₂]
  rcases h with rfl | ⟨key, before, v₁, v₂, after, hkey, -, -, rfl, rfl⟩
  · rfl
  · have hleft (v : Str) : (before ++ v ++ after).take before.length = before := by
      rw [List.append_assoc, List.take_left]
    have hright (v : Str) : (before ++ v ++ after).drop (before.length + v.length) = after := by
      rw [← List.length_append, List.drop_left]
    simp only [if_pos hkey, IniEntry.replaceValue, hleft, hright]

/-- What is left of the entries one by one. -/
theorem map_render_eq (h : List.Forall₂ SameButSecret entries₁ entries₂) :
    ∀ es₁ es₂, (∀ e ∈ entries₁, e ∈ es₁) → (∀ e ∈ entries₂, e ∈ es₂) →
      entries₁.map (IniEntry.render (redactions es₁)) =
        entries₂.map (IniEntry.render (redactions es₂)) := by
  intro es₁ es₂ h₁ h₂
  induction h with
  | nil => rfl
  | cons hsame _ ih =>
    rw [List.map_cons, List.map_cons,
      hsame.render (h₁ _ List.mem_cons_self) (h₂ _ List.mem_cons_self),
      ih (fun e he => h₁ e (List.mem_cons_of_mem _ he))
        (fun e he => h₂ e (List.mem_cons_of_mem _ he))]

/-- **A backup reveals nothing about the secrets.**  Of two files that differ in the values
of sensitive keys, and in nothing else, the same text goes into the backup. -/
theorem redact_indistinguishable (h₁ : parseIni c₁ = .ok parsed₁) (h₂ : parseIni c₂ = .ok parsed₂)
    (hhead : parsed₁.head = parsed₂.head) (hsuffix : parsed₁.suffix = parsed₂.suffix)
    (hentries : List.Forall₂ SameButSecret parsed₁.entries parsed₂.entries) :
    ∃ text, redactPalworldSettings c₁ = .ok text ∧ redactPalworldSettings c₂ = .ok text := by
  have hsame := map_render_eq hentries _ _ (fun _ he => he) (fun _ he => he)
  refine ⟨parsed₁.render (redactions parsed₁.entries), ?_, ?_⟩
  · rw [redactPalworldSettings, h₁]
    rfl
  · rw [redactPalworldSettings, h₂]
    simp only [ParsedIni.render, hhead, hsuffix, hsame]
    rfl

/-- A secret that has a quotation mark, a comma and parentheses in it, and a plain one. -/
theorem redact_indistinguishable_quoted :
    ∃ text, redactPalworldSettings (str
        "[/Script/Pal.PalGameWorldSettings]\nOptionSettings=(AdminPassword=\"a\\\",B=(\" ,C=1)") =
          .ok text ∧
      redactPalworldSettings (str
        "[/Script/Pal.PalGameWorldSettings]\nOptionSettings=(AdminPassword=x ,C=1)") = .ok text := by
  have hfirst : parseIni (str
      "[/Script/Pal.PalGameWorldSettings]\nOptionSettings=(AdminPassword=\"a\\\",B=(\" ,C=1)") =
        .ok ⟨str "[/Script/Pal.PalGameWorldSettings]\nOptionSettings=(",
          [parseEntry (str "AdminPassword=\"a\\\",B=(\" "), parseEntry (str "C=1")], str ")"⟩ := by
    decide +kernel
  have hsecond : parseIni (str
      "[/Script/Pal.PalGameWorldSettings]\nOptionSettings=(AdminPassword=x ,C=1)") =
        .ok ⟨str "[/Script/Pal.PalGameWorldSettings]\nOptionSettings=(",
          [parseEntry (str "AdminPassword=x "), parseEntry (str "C=1")], str ")"⟩ := by
    decide +kernel
  refine redact_indistinguishable hfirst hsecond rfl rfl
    (.cons (.inr ⟨str "AdminPassword", str "AdminPassword=", str "\"a\\\",B=(\"", str "x", str " ",
      ?_⟩) (.cons (.inl rfl) .nil))
  decide +kernel

end Redaction

end PalworldManager
