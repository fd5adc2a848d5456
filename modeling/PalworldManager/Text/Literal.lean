/-
# Plain decimal literals

A sign, digits with a point among them and an exponent, all in ASCII: what every reader of
decimals reads, and reads as the same number.  What the constructor of `Decimal` accepts is
such a literal if it is written in ASCII and without underscores
(`exists_literal_of_parseDecimal`), with the number that it makes.
-/

import PalworldManager.Text.Decimal

namespace Text

/-- A digit as a character. -/
def digitPoint (k : Fin 10) : Point := ⟨48 + k, by omega⟩

def digitsText (ks : List (Fin 10)) : Str := ks.map digitPoint

/-- The number that digits write, the highest first. -/
def decimalValue (ks : List (Fin 10)) : ℕ := Nat.ofDigits 10 (ks.map Fin.val).reverse

/-- No sign, a plus or a minus. -/
def signText : Option Bool → Str
  | none => []
  | some false => [.ofChar '+']
  | some true => [.ofChar '-']

def fractionText : Option (List (Fin 10)) → Str
  | none => []
  | some ks => .ofChar '.' :: digitsText ks

/-- The exponent of a literal. -/
structure PlainExponent where
  upper : Bool
  sign : Option Bool
  digits : List (Fin 10)
  nonempty : digits ≠ []

def PlainExponent.text (x : PlainExponent) : Str :=
  .ofChar (if x.upper then 'E' else 'e') :: (signText x.sign ++ digitsText x.digits)

def PlainExponent.value (x : PlainExponent) : ℤ :=
  if x.sign = some true then -(decimalValue x.digits : ℤ) else decimalValue x.digits

/-- A plain decimal literal. -/
structure PlainLiteral where
  sign : Option Bool
  whole : List (Fin 10)
  fraction : Option (List (Fin 10))
  exponent : Option PlainExponent
  nonempty : whole ++ fraction.getD [] ≠ []

def PlainLiteral.text (l : PlainLiteral) : Str :=
  signText l.sign ++ (digitsText l.whole ++ (fractionText l.fraction ++
    (l.exponent.map PlainExponent.text).getD []))

/-- The number that it writes. -/
def PlainLiteral.value (l : PlainLiteral) : FiniteDecimal where
  negative := l.sign = some true
  coefficient := decimalValue (l.whole ++ l.fraction.getD [])
  exponent := (l.exponent.map PlainExponent.value).getD 0 - (l.fraction.getD []).length

/-- A character of ASCII other than the underscore. -/
def IsPlain (c : Point) : Prop := c.val < 128 ∧ c ≠ .ofChar '_'

instance (c : Point) : Decidable (IsPlain c) := inferInstanceAs (Decidable (_ ∧ _))

variable {c : Point} {t u : Str}

section Digits

/-- A digit that is written has its value. -/
@[simp]
theorem digit_digitPoint (k : Fin 10) : (digitPoint k).digit = some k.val := by
  revert k
  decide

/-- The decimal digits of ASCII are the ten digits. -/
theorem exists_digitPoint (hc : IsPlain c) (h : c.digit.isSome = true) : ∃ k, digitPoint k = c := by
  have hzeros : ∀ z ∈ decimalZeros, z = 48 ∨ 128 ≤ z := by decide
  obtain ⟨z, hz, hle, hlt⟩ : ∃ z ∈ decimalZeros, z ≤ c.val ∧ c.val < z + 10 := by
    rw [Point.digit, Option.isSome_map, List.find?_isSome] at h
    simpa using h
  rcases hzeros z hz with rfl | hhigh
  · exact ⟨⟨c.val - 48, by omega⟩, Fin.ext (Nat.add_sub_cancel' hle)⟩
  · have hascii := hc.1
    omega

/-- A digit is a plain character. -/
theorem isPlain_digitPoint (k : Fin 10) : IsPlain (digitPoint k) := by
  revert k
  decide

/-- A plain text of digits is written from the values of its digits. -/
theorem exists_digitsText (hplain : ∀ c ∈ t, IsPlain c) (h : ∀ c ∈ t, c.digit.isSome = true) :
    ∃ ks, digitsText ks = t := by
  induction t with
  | nil => exact ⟨[], rfl⟩
  | cons c t ih =>
    obtain ⟨k, rfl⟩ := exists_digitPoint (hplain c List.mem_cons_self) (h c List.mem_cons_self)
    obtain ⟨ks, rfl⟩ := ih (fun d hd => hplain d (List.mem_cons_of_mem _ hd))
      fun d hd => h d (List.mem_cons_of_mem _ hd)
    exact ⟨k :: ks, rfl⟩

/-- Both read the same number. -/
theorem digitsValue_digitsText (ks : List (Fin 10)) : digitsValue (digitsText ks) = decimalValue ks := by
  induction ks using List.reverseRecOn with
  | nil => rfl
  | append_singleton ks k ih =>
    rw [digitsValue, digitsText, List.map_append, List.foldl_append]
    rw [digitsValue, digitsText] at ih
    rw [ih, List.map_singleton, List.foldl_cons, List.foldl_nil, digit_digitPoint, decimalValue,
      decimalValue, List.map_append, List.reverse_append]
    simp [Nat.ofDigits_cons]
    omega

end Digits

section Parts

/-- What is read as a sign, and what follows it. -/
theorem exists_signText (t : Str) :
    ∃ sign, signText sign ++ (spanSign t).2 = t ∧ (spanSign t).1 = decide (sign = some true) := by
  cases t with
  | nil => exact ⟨none, rfl, rfl⟩
  | cons c t =>
    rw [spanSign]
    split_ifs with hminus hplus
    · exact ⟨some true, by rw [hminus]; rfl, rfl⟩
    · exact ⟨some false, by rw [hplus]; rfl, rfl⟩
    · exact ⟨none, rfl, rfl⟩

/-- What is read as digits, and what follows them. -/
theorem exists_spanDigits (h : ∀ c ∈ t, IsPlain c) :
    ∃ ks, (spanDigits t).1 = digitsText ks ∧ digitsText ks ++ (spanDigits t).2 = t := by
  have hsplit : (spanDigits t).1 ++ (spanDigits t).2 = t := by
    rw [spanDigits, List.span_eq_takeWhile_dropWhile, List.takeWhile_append_dropWhile]
  obtain ⟨ks, hks⟩ : ∃ ks, digitsText ks = (spanDigits t).1 := by
    refine exists_digitsText (fun c hc => h c ?_) fun c hc => ?_
    · rw [← hsplit]
      exact List.mem_append_left _ hc
    · rw [spanDigits, List.span_eq_takeWhile_dropWhile] at hc
      exact List.mem_takeWhile_imp (p := fun c : Point => c.digit.isSome) hc
  exact ⟨ks, hks.symm, by rw [hks, hsplit]⟩

/-- What is read as a fraction, and what follows it. -/
theorem exists_fractionText (h : ∀ c ∈ t, IsPlain c) :
    ∃ fraction, (spanFraction t).1 = digitsText (fraction.getD []) ∧
      fractionText fraction ++ (spanFraction t).2 = t := by
  cases t with
  | nil => exact ⟨none, rfl, rfl⟩
  | cons c t =>
    rw [spanFraction]
    split_ifs with hpoint
    · obtain ⟨ks, hks, hrest⟩ := exists_spanDigits fun d hd => h d (List.mem_cons_of_mem _ hd)
      exact ⟨some ks, hks, by rw [fractionText, hpoint, List.cons_append, hrest]⟩
    · exact ⟨none, rfl, rfl⟩

/-- What is read as an exponent. -/
theorem exists_exponentText {e : ℤ} (h : ∀ c ∈ t, IsPlain c) (ht : parseExponent t = some e) :
    ∃ x : Option PlainExponent, (x.map PlainExponent.text).getD [] = t ∧
      (x.map PlainExponent.value).getD 0 = e := by
  cases t with
  | nil => exact ⟨none, rfl, by simpa [parseExponent] using ht⟩
  | cons c t =>
    rw [parseExponent] at ht
    split_ifs at ht with hletter
    obtain ⟨sign, hsign, hnegative⟩ := exists_signText t
    have hplain : ∀ d ∈ (spanSign t).2, IsPlain d := by
      intro d hd
      refine h d (List.mem_cons_of_mem _ ?_)
      rw [← hsign]
      exact List.mem_append_right _ hd
    obtain ⟨ks, hks, hrest⟩ := exists_spanDigits hplain
    simp only [hks, hnegative] at ht
    by_cases hdigits : digitsText ks ≠ [] ∧ (spanDigits (spanSign t).2).2 = []
    · rw [if_pos hdigits] at ht
      obtain ⟨hne, hend⟩ := hdigits
      have hks₀ : ks ≠ [] := fun hnil => hne (by rw [hnil]; rfl)
      refine ⟨some ⟨decide (c = .ofChar 'E'), sign, ks, hks₀⟩, ?_, ?_⟩
      · rw [hend, List.append_nil] at hrest
        rw [Option.map_some, Option.getD_some, PlainExponent.text, hrest, hsign]
        rcases hletter with rfl | rfl
        · rfl
        · rfl
      · simpa [PlainExponent.value, digitsValue_digitsText] using Option.some.inj ht
    · rw [if_neg hdigits] at ht
      cases ht

end Parts

section Literals

/-- What is read as a number without a sign. -/
theorem exists_literal_of_parseFinite {sign : Option Bool} {d : FiniteDecimal}
    (h : ∀ c ∈ t, IsPlain c) (ht : parseFinite (decide (sign = some true)) t = some d) :
    ∃ l : PlainLiteral, l.text = signText sign ++ t ∧ l.value = d := by
  obtain ⟨whole, hwhole, hrest⟩ := exists_spanDigits h
  have hplain : ∀ c ∈ (spanDigits t).2, IsPlain c := fun c hc => h c (by
    rw [← hrest]
    exact List.mem_append_right _ hc)
  obtain ⟨fraction, hfraction, hrest'⟩ := exists_fractionText hplain
  have hplain' : ∀ c ∈ (spanFraction (spanDigits t).2).2, IsPlain c := fun c hc => hplain c (by
    rw [← hrest']
    exact List.mem_append_right _ hc)
  simp only [parseFinite, hwhole, hfraction] at ht
  split_ifs at ht with hnone
  obtain ⟨e, he, hd⟩ := Option.bind_eq_some_iff.mp ht
  obtain ⟨exponent, htext, hvalue⟩ := exists_exponentText hplain' he
  have hnonempty : whole ++ fraction.getD [] ≠ [] := by
    intro hnil
    obtain ⟨h₁, h₂⟩ := List.append_eq_nil_iff.mp hnil
    exact hnone ⟨by rw [h₁]; rfl, by rw [h₂]; rfl⟩
  refine ⟨⟨sign, whole, fraction, exponent, hnonempty⟩, ?_, ?_⟩
  · rw [PlainLiteral.text, htext, hrest', hrest]
  · split_ifs at hd
    rw [← Option.some.inj hd]
    simp [PlainLiteral.value, hvalue, digitsText, ← List.map_append, ← digitsValue_digitsText]

/-- **What `Decimal` accepts is a plain literal**, with the number that it makes, if it is
written in plain characters. -/
theorem exists_literal_of_parseDecimal {d : FiniteDecimal} (h : ∀ c ∈ Str.strip t, IsPlain c)
    (ht : parseDecimal t = some (.finite d)) :
    ∃ l : PlainLiteral, l.text = Str.strip t ∧ l.value = d := by
  have hfilter : (Str.strip t).filter (· ≠ .ofChar '_') = Str.strip t :=
    List.filter_eq_self.mpr fun c hc => by simpa using (h c hc).2
  obtain ⟨sign, hsign, hnegative⟩ := exists_signText (Str.strip t)
  simp only [parseDecimal, hfilter] at ht
  split_ifs at ht with hspecial
  · cases ht
  · obtain ⟨d', hd, hsame⟩ := Option.map_eq_some_iff.mp ht
    obtain rfl : d' = d := by simpa using hsame
    rw [hnegative] at hd
    rw [← hsign]
    refine exists_literal_of_parseFinite (fun c hc => h c ?_) hd
    rw [← hsign]
    exact List.mem_append_right _ hc

/-- A sign is a plain character. -/
theorem isPlain_signText {sign : Option Bool} (h : c ∈ signText sign) : IsPlain c := by
  rcases sign with _ | _ | _
  · cases h
  · obtain rfl := List.mem_singleton.mp h
    decide
  · obtain rfl := List.mem_singleton.mp h
    decide

/-- Written digits are plain characters. -/
theorem isPlain_digitsText {ks : List (Fin 10)} (h : c ∈ digitsText ks) : IsPlain c := by
  obtain ⟨k, -, rfl⟩ := List.mem_map.mp h
  exact isPlain_digitPoint k

/-- The characters of a literal are plain. -/
theorem PlainLiteral.isPlain (l : PlainLiteral) (h : c ∈ l.text) : IsPlain c := by
  rw [PlainLiteral.text, List.mem_append, List.mem_append, List.mem_append] at h
  rcases h with h | h | h | h
  · exact isPlain_signText h
  · exact isPlain_digitsText h
  · cases hfraction : l.fraction with
    | none =>
      rw [hfraction] at h
      cases h
    | some ks =>
      rw [hfraction, fractionText, List.mem_cons] at h
      rcases h with rfl | h
      · decide
      · exact isPlain_digitsText h
  · cases hexponent : l.exponent with
    | none =>
      rw [hexponent] at h
      cases h
    | some x =>
      rw [hexponent, Option.map_some, Option.getD_some, PlainExponent.text, List.mem_cons,
        List.mem_append] at h
      rcases h with rfl | h | h
      · cases x.upper <;> decide
      · exact isPlain_signText h
      · exact isPlain_digitsText h

end Literals

end Text
