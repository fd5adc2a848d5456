/-
# Characters as Python sees them

The classes of characters that `str.strip`, `str.isdecimal`, `str.splitlines`
and the module `re` go by.  White space, decimal digits and line boundaries are
given as CPython 3.12 has them (Unicode 15.0).  The letters are not given: which
characters are alphanumeric, and how they fold, comes as a parameter, the class
`Unicode`.
-/

import Mathlib

namespace Text

/-- What the interpreter's character database says: `str.isalnum` of one
character and `str.casefold` of a text. -/
class Unicode where
  isAlnum : Char → Bool
  casefold : List Char → List Char

/-- A database that knows the letters of ASCII only. -/
@[reducible]
def Unicode.ascii : Unicode where
  isAlnum := Char.isAlphanum
  casefold := List.map Char.toLower

/-- The code points of white space. -/
def isSpaceCode (n : ℕ) : Bool :=
  (9 ≤ n && n ≤ 13) || (28 ≤ n && n ≤ 32) || n == 0x85 || n == 0xa0 || n == 0x1680 ||
    (0x2000 ≤ n && n ≤ 0x200a) || n == 0x2028 || n == 0x2029 || n == 0x202f || n == 0x205f ||
    n == 0x3000

/-- `str.isspace` of one character, which is also `\s` of a text pattern. -/
def isSpace (c : Char) : Bool := isSpaceCode c.toNat

/-- The code points of the digits zero: each starts a run of ten decimal
digits. -/
def decimalZeros : List ℕ :=
  [48, 1632, 1776, 1984, 2406, 2534, 2662, 2790, 2918, 3046, 3174, 3302, 3430, 3558, 3664, 3792,
    3872, 4160, 4240, 6112, 6160, 6470, 6608, 6784, 6800, 6992, 7088, 7232, 7248, 42528, 43216,
    43264, 43472, 43504, 43600, 44016, 65296, 66720, 68912, 69734, 69872, 69942, 70096, 70384,
    70736, 70864, 71248, 71360, 71472, 71904, 72016, 72784, 73040, 73120, 73552, 92768, 92864,
    93008, 120782, 120792, 120802, 120812, 120822, 123200, 123632, 124144, 125264, 130032]

/-- `str.isdecimal` of one character, which is also `\d` of a text pattern. -/
def isDecimal (c : Char) : Bool :=
  decimalZeros.any fun z => z ≤ c.toNat && c.toNat < z + 10

/-- `str.strip()`. -/
def strip (t : List Char) : List Char :=
  ((t.dropWhile isSpace).reverse.dropWhile isSpace).reverse

/-- What is stripped is no longer than the text. -/
theorem length_strip_le (t : List Char) : (strip t).length ≤ t.length := by
  have hfront := (List.dropWhile_suffix isSpace (l := t)).length_le
  have hback := (List.dropWhile_suffix isSpace (l := (t.dropWhile isSpace).reverse)).length_le
  rw [List.length_reverse] at hback
  rw [strip, List.length_reverse]
  omega

/-- A text that starts with something else than white space still does once it is stripped. -/
theorem strip_cons {c : Char} (h : isSpace c = false) (t : List Char) :
    ∃ u, strip (c :: t) = c :: u := by
  rw [strip, List.dropWhile_cons_of_neg (by simp [h]), List.reverse_cons, List.dropWhile_append]
  split_ifs
  · exact ⟨[], by simp [h]⟩
  · exact ⟨(t.reverse.dropWhile isSpace).reverse, by simp⟩

/-- **What is stripped stays as it is.** -/
theorem strip_strip (t : List Char) : strip (strip t) = strip t := by
  have hback (u : List Char) : ((u.reverse.dropWhile isSpace).reverse.reverse.dropWhile isSpace).reverse =
      (u.reverse.dropWhile isSpace).reverse := by
    rw [List.reverse_reverse, List.dropWhile_idempotent]
  have hstrip (t : List Char) : strip (t.dropWhile isSpace) = strip t := by
    rw [strip, strip, List.dropWhile_idempotent]
  cases hfront : t.dropWhile isSpace with
  | nil =>
    have ht : strip t = [] := by rw [strip, hfront]; rfl
    rw [ht]
    rfl
  | cons c u =>
    have hc : isSpace c = false := by
      simpa [hfront] using List.head?_dropWhile_not isSpace t
    obtain ⟨v, hv⟩ := strip_cons hc u
    have ht : strip t = c :: v := by rw [← hstrip, hfront, hv]
    have hu : (c :: u).dropWhile isSpace = c :: u := List.dropWhile_cons_of_neg (by simp [hc])
    rw [ht, strip, List.dropWhile_cons_of_neg (by simp [hc]), ← hv, strip, hu]
    exact hback _

end Text
