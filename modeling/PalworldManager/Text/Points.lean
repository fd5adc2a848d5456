/-
# Texts of code points

A Python `str` is a sequence of code points, lone surrogates among them, which a
Lean `String` cannot hold.  `Str` is such a text; `str` embeds the literals of the
source.
-/

import PalworldManager.Text.Chars

namespace Text

/-- A code point. -/
abbrev Point := Fin 0x110000

instance Point.neZero : NeZero 0x110000 := ⟨by decide⟩

instance : LawfulBEq Point := inferInstance

/-- A Python `str`. -/
abbrev Str := List Point

instance : LawfulBEq Str := inferInstance

/-- The code point of a character. -/
def Point.ofChar (c : Char) : Point :=
  ⟨c.toNat, by
    have h := c.valid
    simp only [UInt32.isValidChar, Nat.isValidChar] at h
    simp only [Char.toNat]
    omega⟩

/-- A literal of the source. -/
def str (s : String) : Str := s.toList.map Point.ofChar

/-- The characters of a literal, which need not be decoded. -/
theorem str_eq {s : String} {l : List Char} (h : s = String.ofList l) :
    str s = l.map Point.ofChar := by
  rw [str, h, String.toList_ofList]

/-- A line feed. -/
abbrev newline : Point := .ofChar '\n'

/-- A quotation mark. -/
abbrev quotation : Point := .ofChar '"'

/-- A backslash. -/
abbrev backslash : Point := .ofChar '\\'

/-- `str.isspace` of one character. -/
def Point.isSpace (c : Point) : Bool := isSpaceCode c.val

/-- The value of a decimal digit. -/
def Point.digit (c : Point) : Option ℕ :=
  (decimalZeros.find? fun z => z ≤ c.val && c.val < z + 10).map fun z => c.val - z

/-- A code point that stands for half of a character in UTF-16. -/
def Point.isSurrogate (c : Point) : Bool := 0xd800 ≤ c.val && c.val ≤ 0xdfff

namespace Str

/-- `str.lstrip()`. -/
def lstrip (t : Str) : Str := t.dropWhile Point.isSpace

/-- `str.rstrip()`. -/
def rstrip (t : Str) : Str := t.rdropWhile Point.isSpace

/-- `str.strip()`. -/
def strip (t : Str) : Str := rstrip (lstrip t)

/-- White space only. -/
def IsBlank (t : Str) : Prop := ∀ c ∈ t, c.isSpace = true

/-- A text with something in it that neither starts nor ends with white space. -/
structure IsTrimmed (t : Str) : Prop where
  head : ∃ c u, t = c :: u ∧ c.isSpace = false
  last : ∃ u c, t = u ++ [c] ∧ c.isSpace = false

section Strip

variable {t u v w : Str}

/-- White space before a text is dropped with that of the text. -/
theorem IsBlank.dropWhile_append (h : IsBlank w) (t : Str) :
    (w ++ t).dropWhile Point.isSpace = t.dropWhile Point.isSpace := by
  induction w with
  | nil => rfl
  | cons c w ih =>
    rw [List.cons_append, List.dropWhile_cons_of_pos (h c List.mem_cons_self)]
    exact ih fun d hd => h d (List.mem_cons_of_mem _ hd)

/-- White space read backwards is white space. -/
theorem IsBlank.reverse (h : IsBlank w) : IsBlank w.reverse :=
  fun c hc => h c (List.mem_reverse.mp hc)

/-- A trimmed text read backwards is trimmed. -/
theorem IsTrimmed.reverse (h : IsTrimmed v) : IsTrimmed v.reverse where
  head := by
    obtain ⟨u, c, rfl, hc⟩ := h.last
    exact ⟨c, u.reverse, by simp, hc⟩
  last := by
    obtain ⟨c, u, rfl, hc⟩ := h.head
    exact ⟨u.reverse, c, by simp, hc⟩

/-- A trimmed text is not empty. -/
theorem IsTrimmed.ne_nil (h : IsTrimmed v) : v ≠ [] := by
  obtain ⟨c, u, rfl, -⟩ := h.head
  simp

/-- No white space is dropped before a trimmed text. -/
theorem IsTrimmed.dropWhile_append (h : IsTrimmed v) (t : Str) :
    (v ++ t).dropWhile Point.isSpace = v ++ t := by
  obtain ⟨c, u, rfl, hc⟩ := h.head
  rw [List.cons_append, List.dropWhile_cons_of_neg (by simp [hc])]

/-- White space at the left of a trimmed text goes. -/
theorem lstrip_append (hw : IsBlank w) (hv : IsTrimmed v) (u : Str) :
    lstrip (w ++ v ++ u) = v ++ u := by
  rw [lstrip, List.append_assoc, hw.dropWhile_append, hv.dropWhile_append]

/-- White space at the right of a trimmed text goes. -/
theorem rstrip_append (hw : IsBlank w) (hv : IsTrimmed v) (u : Str) :
    rstrip (u ++ v ++ w) = u ++ v := by
  rw [rstrip, List.rdropWhile, List.reverse_append, List.reverse_append,
    hw.reverse.dropWhile_append, hv.reverse.dropWhile_append]
  simp

/-- Nothing is left of white space. -/
theorem lstrip_of_isBlank (h : IsBlank w) : lstrip w = [] := by
  simpa [lstrip] using h.dropWhile_append []

/-- Nothing is left of white space, from the right either. -/
theorem rstrip_of_isBlank (h : IsBlank w) : rstrip w = [] := by
  have hreverse : w.reverse.dropWhile Point.isSpace = [] := lstrip_of_isBlank h.reverse
  rw [rstrip, List.rdropWhile, hreverse, List.reverse_nil]

/-- A trimmed text stays as it is. -/
theorem strip_of_isTrimmed (hv : IsTrimmed v) : strip v = v := by
  have hl : lstrip v = v := by simpa using lstrip_append (w := []) nofun hv []
  have hr : rstrip v = v := by simpa using rstrip_append (w := []) nofun hv []
  rw [strip, hl, hr]

/-- The white space that a text starts with is white space. -/
theorem isBlank_takeWhile (t : Str) : IsBlank (t.takeWhile Point.isSpace) :=
  fun _ hc => List.mem_takeWhile_imp hc

/-- The white space that a text ends with is white space. -/
theorem isBlank_rtakeWhile (t : Str) : IsBlank (t.rtakeWhile Point.isSpace) :=
  fun _ hc => List.mem_rtakeWhile_imp hc

/-- What `strip` leaves is trimmed, if it leaves anything. -/
theorem isTrimmed_strip (h : strip t ≠ []) : IsTrimmed (strip t) := by
  have hlast : Point.isSpace ((strip t).getLast h) = false := by
    exact eq_false_of_ne_true (List.rdropWhile_last_not Point.isSpace (lstrip t) h)
  constructor
  · have hne : lstrip t ≠ [] := by
      intro hnil
      simp [strip, rstrip, hnil] at h
    obtain ⟨c, u, hcu⟩ := List.exists_cons_of_ne_nil h
    have hprefix : strip t <+: lstrip t := List.rdropWhile_prefix _ _
    obtain ⟨v, hv⟩ := hprefix
    rw [hcu, List.cons_append] at hv
    refine ⟨c, u, hcu, ?_⟩
    have hhead := List.head_dropWhile_not Point.isSpace (l := t) (by simpa [lstrip] using hne)
    have hc : (lstrip t).head hne = c := by simp [← hv]
    simpa [lstrip, ← hc] using hhead
  · exact ⟨(strip t).dropLast, (strip t).getLast h, (List.dropLast_append_getLast h).symm, hlast⟩

/-- A text is white space, or what `strip` leaves of it between white space. -/
theorem strip_parts (t : Str) :
    t = t.takeWhile Point.isSpace ∧ t.takeWhile Point.isSpace = t.rtakeWhile Point.isSpace ∨
      ∃ v, IsTrimmed v ∧ t = t.takeWhile Point.isSpace ++ v ++ t.rtakeWhile Point.isSpace := by
  have hleft : t.takeWhile Point.isSpace ++ lstrip t = t := List.takeWhile_append_dropWhile
  have hright : rstrip t ++ t.rtakeWhile Point.isSpace = t :=
    List.rdropWhile_append_rtakeWhile ..
  by_cases hv : strip t = []
  · have hall : IsBlank t := by
      have hinner : strip t ++ (lstrip t).rtakeWhile Point.isSpace = lstrip t :=
        List.rdropWhile_append_rtakeWhile ..
      rw [hv, List.nil_append] at hinner
      intro c hc
      rw [← hleft, List.mem_append] at hc
      rcases hc with hc | hc
      · exact isBlank_takeWhile t c hc
      · rw [← hinner] at hc
        exact isBlank_rtakeWhile _ c hc
    rw [lstrip_of_isBlank hall, List.append_nil] at hleft
    rw [rstrip_of_isBlank hall, List.nil_append] at hright
    exact .inl ⟨hleft.symm, hleft.trans hright.symm⟩
  · have htrimmed := isTrimmed_strip hv
    have hinner : strip t ++ (lstrip t).rtakeWhile Point.isSpace = lstrip t :=
      List.rdropWhile_append_rtakeWhile ..
    have hparts : t = t.takeWhile Point.isSpace ++ strip t ++
        (lstrip t).rtakeWhile Point.isSpace := by
      rw [List.append_assoc, hinner, hleft]
    have hrstrip : rstrip t = t.takeWhile Point.isSpace ++ strip t := by
      conv_lhs => rw [hparts]
      exact rstrip_append (isBlank_rtakeWhile _) htrimmed _
    exact .inr ⟨strip t, htrimmed, by rw [← hrstrip, hright]⟩

/-- **To strip twice is to strip once.** -/
theorem strip_strip (t : Str) : strip (strip t) = strip t := by
  by_cases h : strip t = []
  · rw [h]
    rfl
  · exact strip_of_isTrimmed (isTrimmed_strip h)

end Strip

end Str

end Text
