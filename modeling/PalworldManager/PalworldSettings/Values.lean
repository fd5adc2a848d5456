/-
# The texts that values are saved as

What `serialize_setting_value` returns is a word, or a string of JSON.  Either is a text
that may take the place of a value: it is trimmed, a scan passes over it, and it has no
line feed.  `serializeSettingValue_eq_ok` says so, and that it is read back as the value
that was submitted.
-/

import PalworldManager.PalworldSettings.Scanning

namespace PalworldManager

open Text

/-- A character that no scan looks at outside of quotation marks. -/
def IsOrdinary (c : Point) : Prop :=
  c ≠ quotation ∧ c ≠ .ofChar '(' ∧ c ≠ .ofChar ')' ∧ c ≠ .ofChar ','

instance (c : Point) : Decidable (IsOrdinary c) := inferInstanceAs (Decidable (_ ∧ _))

/-- A text that may take the place of a value. -/
structure IsValueText (v : Str) : Prop where
  trimmed : Str.IsTrimmed v
  inert : IsInert v
  oneLine : newline ∉ v

/-- A text that `parse_ini` may have read as a value. -/
structure IsValue (v : Str) : Prop where
  entry : IsEntry v
  trimmed : v = [] ∨ Str.IsTrimmed v

/-- What may take the place of a value may have been one. -/
theorem IsValueText.isValue {v : Str} (h : IsValueText v) : IsValue v where
  entry := h.inert 0
  trimmed := .inr h.trimmed

/-- A character of a word: no white space, nothing that a scan looks at, no surrogate. -/
def IsWordPoint (c : Point) : Prop := c.isSpace = false ∧ IsOrdinary c ∧ c.isSurrogate = false

instance (c : Point) : Decidable (IsWordPoint c) := inferInstanceAs (Decidable (_ ∧ _))

/-- A word: there is something in it, and nothing but characters of a word. -/
structure IsWord (t : Str) : Prop where
  ne_nil : t ≠ []
  points : ∀ c ∈ t, IsWordPoint c

section Words

variable {t u : Str}

/-- What is to be checked of a literal. -/
theorem isWord_of_all (h : (t ≠ [] && t.all fun c => IsWordPoint c) = true) : IsWord t := by
  simp only [Bool.and_eq_true, decide_eq_true_eq, List.all_eq_true] at h
  exact ⟨h.1, h.2⟩

/-- Ordinary characters open and close nothing. -/
theorem isInert_of_ordinary (h : ∀ c ∈ t, IsOrdinary c) : IsInert t := by
  induction t with
  | nil => exact fun depth => rfl
  | cons c t ih =>
    intro depth
    obtain ⟨hq, ho, hc, hcomma⟩ := h c List.mem_cons_self
    have hnext : Quoting.next .outside c = .outside := by rw [Quoting.next, if_neg hq]
    have hdepth : Quoting.depth .outside c depth = depth := by
      rw [Quoting.depth, if_pos rfl, if_neg ho, if_neg hc]
    rw [nest, if_neg (by simp [hc, hcomma]), hnext, hdepth]
    exact ih (fun d hd => h d (List.mem_cons_of_mem _ hd)) depth

/-- No white space is looked at. -/
theorem isOrdinary_of_isSpace {c : Point} (h : c.isSpace = true) : IsOrdinary c := by
  refine ⟨?_, ?_, ?_, ?_⟩ <;>
    · rintro rfl
      exact absurd h (by decide)

/-- Neither does white space. -/
theorem isInert_of_isBlank (h : Str.IsBlank t) : IsInert t :=
  isInert_of_ordinary fun c hc => isOrdinary_of_isSpace (h c hc)

/-- White space opens and closes nothing. -/
theorem eq_of_nest_isBlank {depth : ℤ} {q : Quoting} (h : Str.IsBlank t)
    (hn : nest depth q t = some (0, .outside)) : depth = 0 ∧ q = .outside := by
  induction t generalizing depth q with
  | nil => simpa [nest] using hn
  | cons c t ih =>
    obtain ⟨hquote, hopen, hclose, -⟩ := isOrdinary_of_isSpace (h c List.mem_cons_self)
    have hdepth : q.depth c depth = depth := by
      rw [Quoting.depth]
      split_ifs <;> rfl
    rw [nest] at hn
    split_ifs at hn
    rw [hdepth] at hn
    obtain ⟨rfl, hq⟩ := ih (fun d hd => h d (List.mem_cons_of_mem _ hd)) hn
    refine ⟨rfl, ?_⟩
    have hslash : c ≠ backslash := by
      rintro rfl
      exact absurd (h _ List.mem_cons_self) (by decide)
    cases q <;> simp_all [Quoting.next]

/-- A word is trimmed. -/
theorem IsWord.isTrimmed (h : IsWord t) : Str.IsTrimmed t where
  head := by
    obtain ⟨c, u, rfl⟩ := List.exists_cons_of_ne_nil h.ne_nil
    exact ⟨c, u, rfl, (h.points c List.mem_cons_self).1⟩
  last := by
    refine ⟨t.dropLast, t.getLast h.ne_nil, (List.dropLast_append_getLast h.ne_nil).symm, ?_⟩
    exact (h.points _ (List.getLast_mem h.ne_nil)).1

/-- A word may take the place of a value. -/
theorem IsWord.isValueText (h : IsWord t) : IsValueText t where
  trimmed := h.isTrimmed
  inert := isInert_of_ordinary fun c hc => (h.points c hc).2.1
  oneLine hn := absurd (h.points newline hn).1 (by decide)

/-- A word can be encoded. -/
theorem IsWord.isEncodable (h : IsWord t) : IsEncodable t := fun c hc => (h.points c hc).2.2

/-- A digit is a character of a word. -/
theorem isWordPoint_digit {c : Point} (h : c.digit.isSome = true) : IsWordPoint c := by
  have hcodes : ∀ z ∈ decimalZeros, ∀ k < 10, isSpaceCode (z + k) = false ∧
      z + k ∉ [34, 40, 41, 44] ∧ (0xd800 ≤ z + k && z + k ≤ 0xdfff) = false := by decide
  obtain ⟨z, hz, hle, hlt⟩ : ∃ z ∈ decimalZeros, z ≤ c.val ∧ c.val < z + 10 := by
    rw [Point.digit, Option.isSome_map, List.find?_isSome] at h
    simpa using h
  obtain ⟨hspace, hcode, hsurrogate⟩ := hcodes z hz (c.val - z) (by omega)
  rw [Nat.add_sub_cancel' hle] at hspace hcode hsurrogate
  refine ⟨hspace, ⟨?_, ?_, ?_, ?_⟩, hsurrogate⟩ <;>
    · rintro rfl
      exact hcode (by decide)

/-- The characters of a number are those of a word. -/
theorem isWordPoint_number {c : Point} (h : c.digit.isSome = true ∨
    c ∈ [Point.ofChar '+', .ofChar '-', .ofChar '.', .ofChar 'e', .ofChar 'E', .ofChar '_']) :
    IsWordPoint c := by
  rcases h with h | h
  · exact isWordPoint_digit h
  · simp only [List.mem_cons, List.not_mem_nil, or_false] at h
    rcases h with rfl | rfl | rfl | rfl | rfl | rfl <;> decide

end Words

section Numbers

variable {t u : Str}

/-- A character is a sign, or stands behind it. -/
theorem mem_of_mem_spanSign {c : Point} (h : c ∈ t) :
    c ∈ (spanSign t).2 ∨ c = .ofChar '+' ∨ c = .ofChar '-' := by
  cases t with
  | nil => cases h
  | cons d t =>
    rw [spanSign]
    rcases List.mem_cons.mp h with rfl | h
    · split_ifs with hminus hplus
      · exact .inr (.inr hminus)
      · exact .inr (.inl hplus)
      · exact .inl List.mem_cons_self
    · split_ifs
      · exact .inl h
      · exact .inl h
      · exact .inl (List.mem_cons_of_mem _ h)

/-- The digits and the rest are the text. -/
theorem spanDigits_append (t : Str) : (spanDigits t).1 ++ (spanDigits t).2 = t := by
  rw [spanDigits, List.span_eq_takeWhile_dropWhile, List.takeWhile_append_dropWhile]

/-- The digits are digits. -/
theorem digit_of_mem_spanDigits {c : Point} (h : c ∈ (spanDigits t).1) : c.digit.isSome = true := by
  rw [spanDigits, List.span_eq_takeWhile_dropWhile] at h
  exact List.mem_takeWhile_imp (p := fun c : Point => c.digit.isSome) h

/-- A character that is in the digits of a text or in the rest. -/
theorem mem_spanDigits {c : Point} (h : c ∈ t) : c.digit.isSome = true ∨ c ∈ (spanDigits t).2 := by
  rw [← spanDigits_append t, List.mem_append] at h
  exact h.imp_left digit_of_mem_spanDigits

/-- The characters of an exponent. -/
theorem parseExponent_mem {e : ℤ} (h : parseExponent t = some e) {c : Point} (hc : c ∈ t) :
    c.digit.isSome = true ∨
      c ∈ [Point.ofChar '+', .ofChar '-', .ofChar '.', .ofChar 'e', .ofChar 'E', .ofChar '_'] := by
  cases t with
  | nil => cases hc
  | cons d t =>
    rw [parseExponent] at h
    split_ifs at h with hd
    simp only at h
    have hrest : (spanDigits (spanSign t).2).2 = [] := by
      by_contra hne
      simp [hne] at h
    rcases List.mem_cons.mp hc with rfl | hc
    · rcases hd with rfl | rfl <;> exact .inr (by decide)
    · rcases mem_of_mem_spanSign hc with hc | rfl | rfl
      · rcases mem_spanDigits hc with hc | hc
        · exact .inl hc
        · simp [hrest] at hc
      · exact .inr (by decide)
      · exact .inr (by decide)

/-- The characters of a finite number. -/
theorem parseFinite_mem {negative : Bool} {d : FiniteDecimal} (h : parseFinite negative t = some d)
    {c : Point} (hc : c ∈ t) :
    c.digit.isSome = true ∨
      c ∈ [Point.ofChar '+', .ofChar '-', .ofChar '.', .ofChar 'e', .ofChar 'E', .ofChar '_'] := by
  simp only [parseFinite] at h
  split_ifs at h
  obtain ⟨e, he, -⟩ := Option.bind_eq_some_iff.mp h
  rcases mem_spanDigits hc with hc | hc
  · exact .inl hc
  generalize (spanDigits t).2 = rest at hc he
  cases rest with
  | nil => cases hc
  | cons c' rest =>
    rw [spanFraction] at he
    split_ifs at he with hpoint
    · rcases List.mem_cons.mp hc with rfl | hc
      · exact .inr (by simp [hpoint])
      · rcases mem_spanDigits hc with hc | hc
        · exact .inl hc
        · exact parseExponent_mem he hc
    · exact parseExponent_mem he hc

/-- A number is not empty. -/
theorem parseFinite_ne_nil {negative : Bool} {d : FiniteDecimal}
    (h : parseFinite negative t = some d) : t ≠ [] := by
  rintro rfl
  simp [parseFinite, spanDigits, spanFraction, List.span, List.span.loop] at h

/-- **A finite decimal is a word.** -/
theorem isWord_of_parseDecimal {d : FiniteDecimal} (h : parseDecimal t = some (.finite d)) :
    IsWord (Str.strip t) := by
  simp only [parseDecimal] at h
  split_ifs at h
  · cases h
  obtain ⟨d', hd, -⟩ := Option.map_eq_some_iff.mp h
  constructor
  · intro hnil
    rw [hnil] at hd
    exact parseFinite_ne_nil hd rfl
  · intro c hc
    refine isWordPoint_number ?_
    by_cases hunder : c = .ofChar '_'
    · subst hunder
      exact .inr (by decide)
    · have hmem : c ∈ (Str.strip t).filter (· ≠ .ofChar '_') := by simp [hc, hunder]
      rcases mem_of_mem_spanSign hmem with hmem | rfl | rfl
      · exact parseFinite_mem hd hmem
      · exact .inr (by decide)
      · exact .inr (by decide)

/-- **An integer is a word.** -/
theorem isWord_of_isInteger (h : isInteger t = true) : IsWord t := by
  simp only [isInteger, Bool.and_eq_true, decide_eq_true_eq, List.all_eq_true] at h
  obtain ⟨hne, hdigits⟩ := h
  constructor
  · rintro rfl
    exact hne rfl
  · intro c hc
    refine isWordPoint_number ?_
    rcases mem_of_mem_spanSign hc with hc | rfl | rfl
    · exact .inl (hdigits c hc)
    · exact .inr (by decide)
    · exact .inr (by decide)

end Numbers

section Strings

/-- A hexadecimal digit ends no string. -/
theorem hexDigit_ne {n : ℕ} (h : n < 16) :
    hexDigit n ≠ quotation ∧ hexDigit n ≠ backslash ∧ hexDigit n ≠ newline := by
  revert n
  decide

/-- A character of a string leaves a scan in the string. -/
theorem nest_jsonEscape (depth : ℤ) (c : Point) (t : Str) :
    nest depth .quoted (jsonEscape c ++ t) = nest depth .quoted t := by
  rw [jsonEscape]
  split_ifs with hq hb h8 h12 h10 h13 h9 hcontrol
  any_goals rfl
  · obtain ⟨hq₁, hb₁, -⟩ := hexDigit_ne (n := c.val / 16) (by omega)
    obtain ⟨hq₂, hb₂, -⟩ := hexDigit_ne (n := c.val % 16) (by omega)
    have hquote : ¬(Point.ofChar '0' = quotation) := by decide
    have hslash : ¬(Point.ofChar '0' = backslash) := by decide
    simp [nest, Quoting.next, Quoting.depth, hq₁, hb₁, hq₂, hb₂, hquote, hslash]
  · simp [nest, Quoting.next, Quoting.depth, hq, hb]

/-- The characters of a string leave a scan in the string. -/
theorem nest_flatMap (depth : ℤ) (s t : Str) :
    nest depth .quoted (s.flatMap jsonEscape ++ t) = nest depth .quoted t := by
  induction s with
  | nil => rfl
  | cons c s ih => rw [List.flatMap_cons, List.append_assoc, nest_jsonEscape, ih]

/-- No line feed is written as it is. -/
theorem newline_notMem_jsonEscape (c : Point) : newline ∉ jsonEscape c := by
  rw [jsonEscape]
  split_ifs with hq hb h8 h12 h10 h13 h9 hcontrol
  any_goals decide
  · obtain ⟨-, -, hn₁⟩ := hexDigit_ne (n := c.val / 16) (by omega)
    obtain ⟨-, -, hn₂⟩ := hexDigit_ne (n := c.val % 16) (by omega)
    have hn₀ : newline ∉ [backslash, .ofChar 'u', .ofChar '0', .ofChar '0'] := by decide
    simp only [List.mem_cons, List.not_mem_nil, or_false, not_or] at hn₀ ⊢
    exact ⟨hn₀.1, hn₀.2.1, hn₀.2.2.1, hn₀.2.2.2, hn₁.symm, hn₂.symm⟩
  · intro hc
    have hten : newline = 10 := by decide
    rw [List.mem_singleton, hten] at hc
    exact h10 hc.symm

/-- **A string of JSON may take the place of a value.** -/
theorem isValueText_jsonDumps (s : Str) : IsValueText (jsonDumps s) where
  trimmed :=
    ⟨⟨quotation, _, rfl, by decide⟩, ⟨quotation :: s.flatMap jsonEscape, quotation, rfl, by decide⟩⟩
  inert depth := by
    have hopen : nest depth .outside (jsonDumps s) =
        nest depth .quoted (s.flatMap jsonEscape ++ [quotation]) := rfl
    rw [hopen, nest_flatMap]
    rfl
  oneLine := by
    rw [jsonDumps, List.mem_cons, List.mem_append, List.mem_flatMap]
    rintro (h | ⟨c, -, hc⟩ | h)
    · exact absurd h (by decide)
    · exact newline_notMem_jsonEscape c hc
    · exact absurd h (by decide)

end Strings

section Serialize

variable {d : SettingDefinition} {raw v : Str}

/-- The options of the definitions are words, and are read as they are written. -/
theorem options_read (hd : d ∈ settingDefinitions) {o : Str} (ho : o ∈ d.options) :
    IsWord o ∧ parseString o = .ok o := by
  have hall : (settingDefinitions.all fun d => d.options.all fun o =>
      (o ≠ [] && o.all fun c => IsWordPoint c) &&
        decide (parseString o = .ok o)) = true := by decide +kernel
  obtain ⟨hword, hread⟩ :=
    (Bool.and_eq_true ..).mp (List.all_eq_true.mp (List.all_eq_true.mp hall d hd) o ho)
  exact ⟨isWord_of_all hword, of_decide_eq_true hread⟩

/-- A text that is trimmed and is no string of JSON is read as it is. -/
theorem parseString_of_strip (h : Str.strip raw = raw) (hq : raw.head? ≠ some quotation) :
    parseString raw = .ok raw := by
  rw [parseString, h]
  exact if_neg hq

/-- A string that is written is read back. -/
theorem parseString_jsonDumps (s : Str) : parseString (jsonDumps s) = .ok s := by
  have hstrip : Str.strip (jsonDumps s) = jsonDumps s :=
    Str.strip_of_isTrimmed (isValueText_jsonDumps s).trimmed
  simp only [parseString, hstrip]
  rw [if_pos (by rfl), jsonLoads_jsonDumps]

/-- What is read of an integer or a number depends on the trimmed text only. -/
theorem parseSettingValue_congr (hkind : d.kind = .boolean ∨ d.kind = .integer ∨ d.kind = .number)
    (h : Str.strip v = Str.strip raw) : parseSettingValue d v = parseSettingValue d raw := by
  rcases hkind with hkind | hkind | hkind <;> simp only [parseSettingValue, hkind, h]

/-- A boolean is read as a word that is read as itself. -/
theorem parseSettingValue_boolean (hkind : d.kind = .boolean)
    (h : parseSettingValue d raw = .ok v) : IsWord v ∧ parseSettingValue d v = .ok v := by
  have hv : v = str "True" ∨ v = str "False" := by
    simp only [parseSettingValue, hkind] at h
    split_ifs at h
    · exact .inl (by simpa using h.symm)
    · exact .inr (by simpa using h.symm)
  have hstrip : (Str.strip (str "True")).map Point.lower = str "true" ∧
      (Str.strip (str "False")).map Point.lower = str "false" ∧ str "false" ≠ str "true" := by
    decide
  rcases hv with rfl | rfl
  · refine ⟨isWord_of_all (by decide +kernel), ?_⟩
    simp only [parseSettingValue, hkind, hstrip.1, if_true]
  · refine ⟨isWord_of_all (by decide +kernel), ?_⟩
    simp only [parseSettingValue, hkind, hstrip.2.1, hstrip.2.2, if_true, if_false]

/-- An integer or a number is read as the trimmed text, which is a word. -/
theorem parseSettingValue_number (hkind : d.kind = .integer ∨ d.kind = .number)
    (h : parseSettingValue d raw = .ok v) : v = Str.strip raw ∧ IsWord v := by
  rcases hkind with hkind | hkind
  · simp only [parseSettingValue, hkind] at h
    split_ifs at h with hint
    obtain ⟨-, -, rfl⟩ := except_map_eq_ok.mp h
    exact ⟨rfl, isWord_of_isInteger hint⟩
  · simp only [parseSettingValue, hkind] at h
    split at h
    · cases h
    · cases h
    · rename_i value hvalue
      obtain ⟨-, -, rfl⟩ := except_map_eq_ok.mp h
      have hword := isWord_of_parseDecimal hvalue
      rw [Str.strip_strip] at hword
      exact ⟨rfl, hword⟩

/-- What is read of anything but a string is a word. -/
theorem isWord_of_parseSettingValue (hd : d ∈ settingDefinitions) (hkind : d.kind ≠ .string)
    (h : parseSettingValue d raw = .ok v) : IsWord v := by
  cases hk : d.kind with
  | boolean => exact (parseSettingValue_boolean hk h).1
  | integer => exact (parseSettingValue_number (.inl hk) h).2
  | number => exact (parseSettingValue_number (.inr hk) h).2
  | enum =>
    simp only [parseSettingValue, hk] at h
    obtain ⟨value, -, hoption⟩ := except_bind_eq_ok.mp h
    split_ifs at hoption with hmem
    · obtain rfl : value = v := by simpa [Pure.pure, Except.pure] using hoption
      exact (options_read hd hmem).1
  | string => exact absurd hk hkind
  | readOnly => simp [parseSettingValue, hk] at h
  | sensitive => simp [parseSettingValue, hk] at h

/-- **What is saved can be encoded** unless it is a string that cannot be. -/
theorem isEncodable_serializeSettingValue (hd : d ∈ settingDefinitions)
    (hparse : parseSettingValue d raw = .ok v) {serialized : Str}
    (h : serializeSettingValue d raw = .ok serialized) :
    IsEncodable serialized ↔ (d.kind = .string → IsEncodable v) := by
  obtain ⟨normalized, hnormalized, rfl⟩ := except_map_eq_ok.mp h
  obtain rfl : v = normalized := Except.ok.inj (hparse.symm.trans hnormalized)
  by_cases hkind : d.kind = .string
  · simp only [hkind, if_true, true_implies]
    exact isEncodable_jsonDumps
  · simp only [hkind, if_false, false_implies, iff_true]
    exact (isWord_of_parseSettingValue hd hkind hparse).isEncodable

/-- **What is saved may take the place of a value, and is read back as what was
submitted.** -/
theorem serializeSettingValue_eq_ok (hd : d ∈ settingDefinitions)
    (h : serializeSettingValue d raw = .ok v) :
    IsValueText v ∧ parseSettingValue d v = parseSettingValue d raw := by
  obtain ⟨normalized, hparse, hv⟩ := except_map_eq_ok.mp h
  rw [hparse]
  cases hkind : d.kind with
  | boolean =>
    obtain rfl : normalized = v := by simpa [hkind] using hv
    obtain ⟨hword, hread⟩ := parseSettingValue_boolean hkind hparse
    exact ⟨hword.isValueText, hread⟩
  | integer =>
    obtain rfl : normalized = v := by simpa [hkind] using hv
    obtain ⟨rfl, hword⟩ := parseSettingValue_number (.inl hkind) hparse
    refine ⟨hword.isValueText, ?_⟩
    rw [parseSettingValue_congr (.inr (.inl hkind)) (Str.strip_strip raw), hparse]
  | number =>
    obtain rfl : normalized = v := by simpa [hkind] using hv
    obtain ⟨rfl, hword⟩ := parseSettingValue_number (.inr hkind) hparse
    refine ⟨hword.isValueText, ?_⟩
    rw [parseSettingValue_congr (.inr (.inr hkind)) (Str.strip_strip raw), hparse]
  | enum =>
    obtain rfl : normalized = v := by simpa [hkind] using hv
    simp only [parseSettingValue, hkind] at hparse
    obtain ⟨value, -, hoption⟩ := except_bind_eq_ok.mp hparse
    split_ifs at hoption with hmem
    · obtain rfl : value = normalized := by simpa [Pure.pure, Except.pure] using hoption
      obtain ⟨hword, hread⟩ := options_read hd hmem
      refine ⟨hword.isValueText, ?_⟩
      simp only [parseSettingValue, hkind, hread]
      exact if_pos hmem
  | string =>
    obtain rfl : jsonDumps normalized = v := by simpa [hkind] using hv
    refine ⟨isValueText_jsonDumps normalized, ?_⟩
    simp only [parseSettingValue, hkind] at hparse ⊢
    obtain ⟨value, -, hchecks⟩ := except_bind_eq_ok.mp hparse
    have hvalue : value = normalized := by
      split_ifs at hchecks
      simpa [Pure.pure, Except.pure] using hchecks
    rw [parseString_jsonDumps]
    exact hvalue ▸ hchecks
  | readOnly => simp [parseSettingValue, hkind] at hparse
  | sensitive => simp [parseSettingValue, hkind] at hparse

end Serialize

end PalworldManager
