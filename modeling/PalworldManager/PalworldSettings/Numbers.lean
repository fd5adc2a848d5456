/-
# The numbers that are saved

An integer or a number is saved as the text that was submitted, without the white space
around it.  The pattern and the constructor that accept it know more digits than those of
ASCII, and the constructor passes over underscores; neither is any part of the literals that
a reader of the file knows.  Where the text has none of them, it is a plain literal, of the
number whose range was checked (`serializeSettingValue_plain_iff`).
-/

import PalworldManager.PalworldSettings.Values
import PalworldManager.Text.Literal

namespace PalworldManager

open Text

/-- The number whose range `parse_setting_value` checks. -/
def checkedNumber (definition : SettingDefinition) (raw : Str) : Option FiniteDecimal :=
  match definition.kind with
  | .integer => some (integerDecimal (Str.strip raw))
  | .number => match parseDecimal (Str.strip raw) with
    | some (.finite value) => some value
    | _ => none
  | _ => none

/-- A plain literal of the number whose range was checked, without an exponent if it is an
integer. -/
def WritesPlain (definition : SettingDefinition) (raw v : Str) : Prop :=
  ∃ l : PlainLiteral, l.text = v ∧ checkedNumber definition raw = some l.value ∧
    (definition.kind = .integer → l.exponent = none)

variable {d : SettingDefinition} {raw v : Str}

/-- An accepted number is in its range. -/
theorem exists_checkedNumber (hkind : d.kind = .integer ∨ d.kind = .number)
    (h : parseSettingValue d raw = .ok v) :
    ∃ value, checkedNumber d raw = some value ∧ validateRange d value = .ok () := by
  rcases hkind with hkind | hkind
  · simp only [parseSettingValue, hkind] at h
    split_ifs at h
    obtain ⟨_, hrange, -⟩ := except_map_eq_ok.mp h
    exact ⟨_, by rw [checkedNumber, hkind], hrange⟩
  · simp only [parseSettingValue, hkind] at h
    split at h
    · cases h
    · cases h
    · rename_i value hvalue
      obtain ⟨_, hrange, -⟩ := except_map_eq_ok.mp h
      exact ⟨value, by rw [checkedNumber, hkind]; simp only [hvalue], hrange⟩

/-- A plain integer is a literal without a point and an exponent. -/
theorem exists_literal_of_isInteger {t : Str} (hplain : ∀ c ∈ t, Text.IsPlain c)
    (h : isInteger t = true) :
    ∃ l : PlainLiteral, l.text = t ∧ l.value = integerDecimal t ∧ l.exponent = none := by
  obtain ⟨sign, hsign, hnegative⟩ := exists_signText t
  simp only [isInteger, Bool.and_eq_true, decide_eq_true_eq, List.all_eq_true] at h
  obtain ⟨hne, hdigits⟩ := h
  have hmem : ∀ c ∈ (spanSign t).2, Text.IsPlain c := fun c hc => hplain c (by
    rw [← hsign]
    exact List.mem_append_right _ hc)
  obtain ⟨ks, hks⟩ := exists_digitsText hmem hdigits
  have hks₀ : ks ++ [] ≠ [] := by
    rw [List.append_nil]
    rintro rfl
    exact hne hks.symm
  refine ⟨⟨sign, ks, none, none, hks₀⟩, ?_, ?_, rfl⟩
  · simpa [PlainLiteral.text, fractionText, hks] using hsign
  · simp [PlainLiteral.value, integerDecimal, hnegative, ← hks, digitsValue_digitsText]

/-- **What is saved of a number** is a plain literal of it if and only if the text submitted
is, but for the white space around it, ASCII without underscores. -/
theorem serializeSettingValue_plain_iff (hkind : d.kind = .integer ∨ d.kind = .number)
    (h : serializeSettingValue d raw = .ok v) :
    WritesPlain d raw v ↔ ∀ c ∈ Str.strip raw, c.val < 128 ∧ c ≠ .ofChar '_' := by
  obtain ⟨normalized, hparse, hv⟩ := except_map_eq_ok.mp h
  have hstring : d.kind ≠ .string := by
    rcases hkind with hkind | hkind <;> rw [hkind] <;> nofun
  rw [if_neg hstring] at hv
  obtain rfl : v = Str.strip raw := hv ▸ (parseSettingValue_number hkind hparse).1
  constructor
  · rintro ⟨l, htext, -, -⟩ c hc
    rw [← htext] at hc
    exact l.isPlain hc
  · intro hplain
    obtain ⟨value, hchecked, -⟩ := exists_checkedNumber hkind hparse
    rcases hkind with hkind | hkind
    · have hinteger : isInteger (Str.strip raw) = true := by
        simp only [parseSettingValue, hkind] at hparse
        by_contra hno
        rw [if_neg hno] at hparse
        cases hparse
      obtain ⟨l, htext, hvalue, hexponent⟩ := exists_literal_of_isInteger hplain hinteger
      exact ⟨l, htext, by rw [checkedNumber, hkind, hvalue], fun _ => hexponent⟩
    · have hdecimal : parseDecimal (Str.strip raw) = some (.finite value) := by
        simp only [checkedNumber, hkind] at hchecked
        split at hchecked
        · rename_i hsome
          rw [hsome, Option.some.inj hchecked]
        · cases hchecked
      obtain ⟨l, htext, hvalue⟩ :=
        exists_literal_of_parseDecimal (by rwa [Str.strip_strip]) hdecimal
      rw [Str.strip_strip] at htext
      refine ⟨l, htext, hvalue ▸ hchecked, fun hinteger => ?_⟩
      rw [hkind] at hinteger
      cases hinteger

/-- A rate with blanks and an exponent, written as a decimal is. -/
theorem serializeSettingValue_plain_iff_rate :
    WritesPlain (definition "ExpRate" .balance .number) (str " -1.50e2\n") (str "-1.50e2") := by
  have hserialize : serializeSettingValue (definition "ExpRate" .balance .number)
      (str " -1.50e2\n") = .ok (str "-1.50e2") := by decide +kernel
  have hplain : (Str.strip (str " -1.50e2\n")).all (fun c => decide (Text.IsPlain c)) = true := by
    decide +kernel
  refine (serializeSettingValue_plain_iff (.inr rfl) hserialize).mpr fun c hc => ?_
  exact of_decide_eq_true (List.all_eq_true.mp hplain c hc)

/-- The digits of other scripts are saved as they are submitted. -/
theorem serializeSettingValue_otherScript :
    definition "RandomizerSeed" .features .integer ∈ settingDefinitions ∧
      serializeSettingValue (definition "RandomizerSeed" .features .integer) (str "١٢") =
        .ok (str "١٢") ∧
      ¬WritesPlain (definition "RandomizerSeed" .features .integer) (str "١٢") (str "١٢") := by
  refine ⟨by decide +kernel, by decide +kernel, ?_⟩
  rintro ⟨l, htext, -, -⟩
  have hmem : Point.ofChar '١' ∈ l.text := by
    rw [htext]
    decide
  exact absurd (l.isPlain hmem) (by decide)

end PalworldManager
