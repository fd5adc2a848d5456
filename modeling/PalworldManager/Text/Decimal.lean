/-
# Decimal numbers

The constructor of Python's `Decimal` for a text, and the comparison of two finite
decimals.  The text may be surrounded by white space and have underscores in it;
its digits may be decimal digits of any script.  The bounds on the exponent are
those of a 64-bit interpreter.
-/

import PalworldManager.Text.Points

namespace Text

/-- A finite decimal, `coefficient * 10 ^ exponent`, with a sign. -/
structure FiniteDecimal where
  negative : Bool
  coefficient : ℕ
  exponent : ℤ
  deriving DecidableEq, Repr

/-- A decimal: finite, or infinite or not a number. -/
inductive Decimal where
  | finite (d : FiniteDecimal)
  | special
  deriving DecidableEq, Repr

/-- `sys.get_int_max_str_digits()`: how many digits an integer is read from or written with. -/
def maxIntDigits : ℕ := 4300

/-- The number that decimal digits write. -/
def digitsValue (t : Str) : ℕ := t.foldl (fun n c => 10 * n + c.digit.getD 0) 0

/-- The digits that a text starts with, and the rest. -/
def spanDigits (t : Str) : Str × Str := t.span fun c => c.digit.isSome

/-- An optional sign, and the rest. -/
def spanSign : Str → Bool × Str
  | [] => (false, [])
  | c :: t =>
      if c = .ofChar '-' then (true, t) else if c = .ofChar '+' then (false, t) else (false, c :: t)

/-- `MAX_EMAX` and `MIN_ETINY`. -/
def FiniteDecimal.inRange (d : FiniteDecimal) : Bool :=
  d.exponent + ((Nat.toDigits 10 d.coefficient).length : ℤ) - 1 ≤ 999999999999999999 &&
    -1999999999999999997 ≤ d.exponent

/-- The exponent that a number ends with, if it has one. -/
def parseExponent : Str → Option ℤ
  | [] => some 0
  | c :: t =>
      if c = .ofChar 'e' ∨ c = .ofChar 'E' then
        let (negative, t) := spanSign t
        let (digits, rest) := spanDigits t
        if digits ≠ [] ∧ rest = [] then
          some (if negative then -(digitsValue digits : ℤ) else digitsValue digits)
        else none
      else none

/-- The fraction that may follow the digits of a number, and the rest. -/
def spanFraction : Str → Str × Str
  | [] => ([], [])
  | c :: t => if c = .ofChar '.' then spanDigits t else ([], c :: t)

/-- A finite number without its sign. -/
def parseFinite (negative : Bool) (t : Str) : Option FiniteDecimal :=
  let (whole, rest) := spanDigits t
  let (fraction, rest) := spanFraction rest
  if whole = [] ∧ fraction = [] then none
  else (parseExponent rest).bind fun e =>
    let d := ⟨negative, digitsValue (whole ++ fraction), e - fraction.length⟩
    if d.inRange then some d else none

/-- A letter of ASCII in lower case. -/
def Point.lower (c : Point) : Point := if 65 ≤ c.val ∧ c.val ≤ 90 then c + 32 else c

/-- An infinity, or no number: without its sign. -/
def isSpecial (t : Str) : Bool :=
  let t := t.map Point.lower
  t == str "inf" || t == str "infinity" ||
    [str "nan", str "snan"].any fun name => name.isPrefixOf t && (spanDigits (t.drop name.length)).2.isEmpty

/-- `Decimal(t)`; `none` is `InvalidOperation`. -/
def parseDecimal (t : Str) : Option Decimal :=
  let (negative, u) := spanSign ((Str.strip t).filter (· ≠ .ofChar '_'))
  if isSpecial u then some .special else (parseFinite negative u).map .finite

/-- A finite decimal in units of `10 ^ e`, for an `e` that is not above its exponent. -/
def FiniteDecimal.scaled (d : FiniteDecimal) (e : ℤ) : ℤ :=
  (if d.negative then -1 else 1) * (d.coefficient * 10 ^ (d.exponent - e).toNat)

/-- `a < b`. -/
def FiniteDecimal.lt (a b : FiniteDecimal) : Bool :=
  a.scaled (min a.exponent b.exponent) < b.scaled (min a.exponent b.exponent)

example : parseDecimal (str " 1_0.50e-2 ") = some (.finite ⟨false, 1050, -4⟩) := by decide +kernel

section Digits

variable {t : Str}

/-- The digits of ASCII, by their codes. -/
theorem isDigit_iff {c : Char} : c.isDigit = true ↔ 48 ≤ c.toNat ∧ c.toNat ≤ 57 := by
  simp only [Char.isDigit, Bool.and_eq_true, decide_eq_true_eq, ge_iff_le, UInt32.le_iff_toNat_le,
    Char.toNat]
  rfl

/-- A digit of ASCII has its own value. -/
theorem digit_ofChar {c : Char} (h : c.isDigit = true) :
    (Point.ofChar c).digit = some (c.toNat - 48) := by
  obtain ⟨hlow, hhigh⟩ := isDigit_iff.mp h
  have hpoint : (Point.ofChar c).val = c.toNat := rfl
  have hzero : (48 ≤ c.toNat && c.toNat < 48 + 10) = true := by
    simp only [Bool.and_eq_true, decide_eq_true_eq]
    omega
  unfold Point.digit decimalZeros
  rw [List.find?_cons_of_pos (by rw [hpoint]; exact hzero), hpoint]
  rfl

/-- On digits of ASCII the value is that of Lean's reader. -/
theorem digitsValue_eq_ofDigitChars {t : List Char} (h : ∀ c ∈ t, c.isDigit = true) :
    digitsValue (t.map Point.ofChar) = Nat.ofDigitChars 10 t 0 := by
  rw [digitsValue, Nat.ofDigitChars_eq_foldl, List.foldl_map]
  refine List.foldl_ext _ _ 0 fun value c hc => ?_
  rw [digit_ofChar (h c hc)]
  rfl

/-- A number is read again from its digits. -/
theorem digitsValue_toString (n : ℕ) : digitsValue (str (toString n)) = n := by
  have hdigits : (toString n).toList = Nat.toDigits 10 n := String.toList_ofList
  rw [str, hdigits, digitsValue_eq_ofDigitChars fun c hc =>
    Nat.isDigit_of_mem_toDigits (by decide) (by decide) hc, Nat.ofDigitChars_ten_toDigits]

/-- A number is written in digits. -/
theorem isSome_digit_toString (n : ℕ) : ∀ c ∈ str (toString n), c.digit.isSome = true := by
  intro c hc
  obtain ⟨ch, hch, rfl⟩ := List.mem_map.mp hc
  have hdigits : (toString n).toList = Nat.toDigits 10 n := String.toList_ofList
  rw [hdigits] at hch
  rw [digit_ofChar (Nat.isDigit_of_mem_toDigits (by decide) (by decide) hch)]
  rfl

/-- A digit is below ten. -/
theorem digit_lt {c : Point} {n : ℕ} (h : c.digit = some n) : n < 10 := by
  unfold Point.digit at h
  obtain ⟨z, hz, rfl⟩ := Option.map_eq_some_iff.mp h
  have hfound := List.find?_some hz
  simp only [Bool.and_eq_true, decide_eq_true_eq] at hfound
  omega

/-- A digit more makes ten of what stands before it. -/
theorem digitsValue_append (t : Str) (c : Point) :
    digitsValue (t ++ [c]) = 10 * digitsValue t + c.digit.getD 0 := by
  rw [digitsValue, List.foldl_append]
  rfl

/-- A text of `n` digits stands for less than `10 ^ n`. -/
theorem digitsValue_lt (t : Str) : digitsValue t < 10 ^ t.length := by
  induction t using List.reverseRecOn with
  | nil => exact Nat.one_pos
  | append_singleton t c ih =>
    have hdigit : c.digit.getD 0 < 10 := by
      cases hc : c.digit with
      | none => exact Nat.succ_pos 9
      | some n => exact digit_lt hc
    rw [digitsValue_append, List.length_append, List.length_singleton, Nat.pow_succ]
    omega

end Digits

end Text
