/-
# UTF-8

`str.encode("utf-8")` and `bytes.decode("utf-8")`.  A lone surrogate has no bytes, and
no bytes are read as one, so that what can be encoded is what some bytes decode to.
-/

import PalworldManager.Text.Points

namespace Text

/-- The character of a code point that is no surrogate. -/
def Point.toChar (c : Point) : Option Char :=
  if c.val.isValidChar then some (Char.ofNat c.val) else none

/-- `str.encode("utf-8")`. -/
def encodeUtf8 (t : Str) : Option ByteArray :=
  (t.mapM Point.toChar).map fun cs => (String.ofList cs).toUTF8

/-- `bytes.decode("utf-8")`. -/
def decodeUtf8 (b : ByteArray) : Option Str :=
  b.utf8Decode?.map fun cs => cs.toList.map Point.ofChar

section Utf8

variable {t u : Str} {b : ByteArray} {c : Point} {ch : Char}

/-- The code point of a character has that character. -/
@[simp]
theorem toChar_ofChar (ch : Char) : (Point.ofChar ch).toChar = some ch := by
  have h : (Point.ofChar ch).val.isValidChar := ch.valid
  have hval : (Point.ofChar ch).val = ch.toNat := rfl
  rw [Point.toChar, if_pos h, hval, Char.ofNat_toNat]

/-- The character of a code point has that code point. -/
theorem ofChar_of_toChar (h : c.toChar = some ch) : Point.ofChar ch = c := by
  rw [Point.toChar] at h
  split_ifs at h with hvalid
  obtain rfl : Char.ofNat c.val = ch := by simpa using h
  refine Fin.ext ?_
  change (Char.ofNat c.val).toNat = c.val
  rw [Char.ofNat, dif_pos hvalid]
  exact UInt32.toNat_ofNatLT

/-- A code point has a character unless it is a surrogate. -/
theorem isSome_toChar (c : Point) : c.toChar.isSome = !c.isSurrogate := by
  have hlt := c.isLt
  rw [Point.toChar, Point.isSurrogate]
  by_cases h : c.val.isValidChar
  · rw [if_pos h]
    simp only [Nat.isValidChar] at h
    simp only [Option.isSome_some, Bool.true_eq, Bool.not_eq_true', Bool.and_eq_false_iff,
      decide_eq_false_iff_not]
    omega
  · rw [if_neg h]
    simp only [Nat.isValidChar] at h
    simp only [Option.isSome_none, Bool.false_eq, Bool.not_eq_false', Bool.and_eq_true,
      decide_eq_true_eq]
    omega

/-- The texts that have characters are those of characters. -/
theorem mapM_toChar {cs : List Char} : t.mapM Point.toChar = some cs ↔ t = cs.map Point.ofChar := by
  induction t generalizing cs with
  | nil => cases cs <;> simp
  | cons c t ih =>
    rw [List.mapM_cons]
    constructor
    · intro h
      obtain ⟨ch, hch, h⟩ := Option.bind_eq_some_iff.mp h
      obtain ⟨cs', hcs', h⟩ := Option.bind_eq_some_iff.mp h
      obtain rfl : ch :: cs' = cs := by simpa using h
      rw [List.map_cons, ofChar_of_toChar hch, ih.mp hcs']
    · intro h
      cases cs with
      | nil => simp at h
      | cons ch cs =>
        obtain ⟨rfl, rfl⟩ : c = .ofChar ch ∧ t = cs.map Point.ofChar := by simpa using h
        rw [toChar_ofChar, ih.mpr rfl]
        rfl

/-- What can be encoded is a text of characters, encoded as Lean does. -/
theorem encodeUtf8_eq_some :
    encodeUtf8 t = some b ↔ ∃ cs : List Char, t = cs.map Point.ofChar ∧
      (String.ofList cs).toByteArray = b := by
  rw [encodeUtf8, Option.map_eq_some_iff]
  simp only [mapM_toChar]
  rfl

/-- **What is written is read back.** -/
theorem decodeUtf8_of_encodeUtf8 (h : encodeUtf8 t = some b) : decodeUtf8 b = some t := by
  obtain ⟨cs, rfl, rfl⟩ := encodeUtf8_eq_some.mp h
  rw [decodeUtf8, String.toByteArray_ofList, List.utf8Decode?_utf8Encode]
  simp

/-- What is read is what was written. -/
theorem encodeUtf8_of_decodeUtf8 (h : decodeUtf8 b = some t) : encodeUtf8 t = some b := by
  obtain ⟨cs, hcs, rfl⟩ := Option.map_eq_some_iff.mp h
  refine encodeUtf8_eq_some.mpr ⟨cs.toList, rfl, ?_⟩
  have hsome : b.utf8Decode?.isSome = true := by rw [hcs]; rfl
  have hget : b.utf8Decode?.get hsome = cs := by simp [hcs]
  rw [String.toByteArray_ofList, ← hget]
  exact ByteArray.utf8Encode_get_utf8Decode?

/-- A text without lone surrogates. -/
def IsEncodable (t : Str) : Prop := ∀ c ∈ t, c.isSurrogate = false

/-- A text of two is encodable if both are. -/
theorem isEncodable_append : IsEncodable (t ++ u) ↔ IsEncodable t ∧ IsEncodable u :=
  List.forall_mem_append

/-- A text is encodable if its first character is no surrogate and the rest is encodable. -/
theorem isEncodable_cons : IsEncodable (c :: t) ↔ c.isSurrogate = false ∧ IsEncodable t :=
  List.forall_mem_cons

/-- No character is a surrogate. -/
theorem isSurrogate_ofChar (ch : Char) : (Point.ofChar ch).isSurrogate = false := by
  have hsome := isSome_toChar (.ofChar ch)
  rw [toChar_ofChar, Option.isSome_some] at hsome
  simpa using hsome.symm

/-- The literals of the source are encodable. -/
theorem isEncodable_str (s : String) : IsEncodable (str s) := by
  intro c hc
  obtain ⟨ch, -, rfl⟩ := List.mem_map.mp hc
  exact isSurrogate_ofChar ch

/-- The start of an encodable text is encodable. -/
theorem IsEncodable.take (h : IsEncodable t) (n : ℕ) : IsEncodable (t.take n) :=
  fun c hc => h c (List.mem_of_mem_take hc)

/-- What is joined is as encodable as the texts are. -/
theorem isEncodable_intercalate {sep : Str} (hsep : IsEncodable sep) {ts : List Str} :
    IsEncodable (sep.intercalate ts) ↔ ∀ t ∈ ts, IsEncodable t := by
  induction ts with
  | nil => exact iff_of_true (fun c hc => absurd hc List.not_mem_nil) nofun
  | cons t ts ih =>
    cases ts with
    | nil => rw [List.intercalate_singleton, List.forall_mem_singleton]
    | cons t' ts =>
      rw [List.intercalate_cons_cons, isEncodable_append, isEncodable_append, ih, and_assoc,
        and_iff_right hsep]
      exact List.forall_mem_cons.symm

/-- **What can be written** has no lone surrogate. -/
theorem isSome_encodeUtf8 : (encodeUtf8 t).isSome ↔ IsEncodable t := by
  rw [encodeUtf8, Option.isSome_map]
  constructor
  · intro h c hc
    obtain ⟨cs, hcs⟩ := Option.isSome_iff_exists.mp h
    rw [mapM_toChar.mp hcs] at hc
    obtain ⟨ch, -, rfl⟩ := List.mem_map.mp hc
    exact isSurrogate_ofChar ch
  · intro h
    have hchars : ∃ cs : List Char, t = cs.map Point.ofChar := by
      induction t with
      | nil => exact ⟨[], rfl⟩
      | cons c t ih =>
        obtain ⟨hfirst, hrest⟩ := isEncodable_cons.mp h
        obtain ⟨cs, rfl⟩ := ih hrest
        have hc := isSome_toChar c
        rw [hfirst] at hc
        obtain ⟨ch, hch⟩ := Option.isSome_iff_exists.mp (by simpa using hc)
        exact ⟨ch :: cs, by rw [List.map_cons, ofChar_of_toChar hch]⟩
    obtain ⟨cs, rfl⟩ := hchars
    rw [mapM_toChar.mpr rfl]
    rfl

end Utf8

example : decodeUtf8 ⟨#[0xc3, 0xa9]⟩ = some (str "é") ∧ decodeUtf8 ⟨#[0xed, 0xa0, 0x80]⟩ = none := by
  decide +kernel

end Text
