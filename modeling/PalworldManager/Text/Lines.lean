/-
# Lines

`str.splitlines`: a line is a text and what ends it, which is nothing for a last line
without a terminator.  What lines join to is split into the same lines again, except that
a line that nothing ends goes into the next one (`splitLines_joinLines`).
-/

import PalworldManager.Text.Chars

namespace Text

/-- A character that ends a line for `str.splitlines`. -/
def isLineBreak (c : Char) : Bool :=
  c.toNat ∈ [10, 11, 12, 13, 28, 29, 30, 0x85, 0x2028, 0x2029]

/-- A line, and what ends it. -/
structure Line where
  text : List Char
  ending : List Char
  deriving DecidableEq, Repr

/-- A line as `splitlines(keepends=True)` has it. -/
def Line.full (l : Line) : List Char := l.text ++ l.ending

/-- A character more at the start of the first line. -/
def consLine (c : Char) : List Line → List Line
  | [] => [⟨[c], []⟩]
  | l :: ls => ⟨c :: l.text, l.ending⟩ :: ls

/-- `str.splitlines`. -/
def splitLines : List Char → List Line
  | [] => []
  | '\r' :: '\n' :: t => ⟨[], ['\r', '\n']⟩ :: splitLines t
  | c :: t => if isLineBreak c then ⟨[], [c]⟩ :: splitLines t else consLine c (splitLines t)

/-- `"".join(lines)`. -/
def joinLines (ls : List Line) : List Char := (ls.map Line.full).flatten

/-- Lines are joined one by one. -/
@[simp]
theorem joinLines_cons (l : Line) (ls : List Line) : joinLines (l :: ls) = l.full ++ joinLines ls := rfl

/-- A character put before the lines stands before the joined text. -/
theorem joinLines_consLine (c : Char) (ls : List Line) :
    joinLines (consLine c ls) = c :: joinLines ls := by
  cases ls with
  | nil => rfl
  | cons l ls => rfl

/-- **The lines of a text join to the text.** -/
theorem joinLines_splitLines (t : List Char) : joinLines (splitLines t) = t := by
  induction t using splitLines.induct with
  | case1 => rfl
  | case2 t ih =>
    rw [splitLines, joinLines_cons, ih]
    rfl
  | case3 c t hcrlf hbreak ih =>
    rw [splitLines, if_pos hbreak, joinLines_cons, ih]
    · rfl
    · exact hcrlf
  | case4 c t hcrlf hbreak ih =>
    rw [splitLines, if_neg hbreak, joinLines_consLine, ih]
    exact hcrlf

/-- What may end a line. -/
def IsEnding (e : List Char) : Prop := e = ['\r', '\n'] ∨ ∃ c, isLineBreak c = true ∧ e = [c]

/-- Lines that a text may be split into, but for those that nothing ends. -/
structure IsLine (l : Line) : Prop where
  text : ∀ c ∈ l.text, isLineBreak c = false
  ending : l.ending = [] ∨ IsEnding l.ending
  full : l.full ≠ []

/-- No line feed follows a carriage return at the end of a line. -/
def Separated : List Line → Prop
  | [] => True
  | l :: ls => (l.ending = ['\r'] → (joinLines ls).head? ≠ some '\n') ∧ Separated ls

/-- A line that nothing ends goes into the next one. -/
def coalesce : List Line → List Line
  | [] => []
  | l :: ls =>
      if l.ending = [] then
        match coalesce ls with
        | [] => [l]
        | m :: ms => ⟨l.text ++ m.text, m.ending⟩ :: ms
      else l :: coalesce ls

/-- Only the last line may have nothing at its end. -/
def Terminated : List Line → Prop
  | [] => True
  | l :: ls => (l.ending = [] → ls = []) ∧ Terminated ls

section Lines

variable {c : Char} {t : List Char} {l : Line} {ls ms : List Line}

/-- A character that breaks no line may be put before the lines. -/
theorem isLine_consLine (hc : isLineBreak c = false) (h : ∀ l ∈ ls, IsLine l) :
    ∀ l ∈ consLine c ls, IsLine l := by
  cases ls with
  | nil =>
    intro l hl
    obtain rfl := List.mem_singleton.mp hl
    exact ⟨by simpa using hc, .inl rfl, by simp [Line.full]⟩
  | cons m ls =>
    have hm := h m List.mem_cons_self
    intro l hl
    rcases List.mem_cons.mp hl with rfl | hl
    · refine ⟨fun d hd => ?_, hm.ending, by simp [Line.full]⟩
      rcases List.mem_cons.mp hd with rfl | hd
      · exact hc
      · exact hm.text d hd
    · exact h l (List.mem_cons_of_mem _ hl)

/-- A text is split into lines. -/
theorem isLine_splitLines (t : List Char) : ∀ l ∈ splitLines t, IsLine l := by
  induction t using splitLines.induct with
  | case1 => exact nofun
  | case2 t ih =>
    rw [splitLines, List.forall_mem_cons]
    exact ⟨⟨nofun, .inr (.inl rfl), by simp [Line.full]⟩, ih⟩
  | case3 c t hcrlf hbreak ih =>
    rw [splitLines, if_pos hbreak, List.forall_mem_cons]
    · exact ⟨⟨nofun, .inr (.inr ⟨c, hbreak, rfl⟩), by simp [Line.full]⟩, ih⟩
    · exact hcrlf
  | case4 c t hcrlf hbreak ih =>
    rw [splitLines, if_neg hbreak]
    · exact isLine_consLine (by simpa using hbreak) ih
    · exact hcrlf

/-- It leaves them separated. -/
theorem separated_consLine (h : Separated ls) : Separated (consLine c ls) := by
  cases ls with
  | nil => exact ⟨nofun, trivial⟩
  | cons m ls => exact h

/-- **The lines of a text are separated.** -/
theorem separated_splitLines (t : List Char) : Separated (splitLines t) := by
  induction t using splitLines.induct with
  | case1 => trivial
  | case2 t ih =>
    rw [splitLines]
    exact ⟨nofun, ih⟩
  | case3 c t hcrlf hbreak ih =>
    rw [splitLines, if_pos hbreak]
    · refine ⟨fun hreturn hfeed => ?_, ih⟩
      rw [joinLines_splitLines] at hfeed
      obtain ⟨u, rfl⟩ : ∃ u, t = '\n' :: u := by
        cases t with
        | nil => cases hfeed
        | cons d u => exact ⟨u, by rw [Option.some.inj hfeed]⟩
      obtain rfl : c = '\r' := by simpa using hreturn
      exact hcrlf u rfl rfl
    · exact hcrlf
  | case4 c t hcrlf hbreak ih =>
    rw [splitLines, if_neg hbreak]
    · exact separated_consLine ih
    · exact hcrlf

/-- A character before the lines leaves them terminated. -/
theorem terminated_consLine (h : Terminated ls) : Terminated (consLine c ls) := by
  cases ls with
  | nil => exact ⟨fun _ => rfl, trivial⟩
  | cons m ls => exact h

/-- **The lines of a text are terminated**, but perhaps the last. -/
theorem terminated_splitLines (t : List Char) : Terminated (splitLines t) := by
  induction t using splitLines.induct with
  | case1 => trivial
  | case2 t ih =>
    rw [splitLines]
    exact ⟨nofun, ih⟩
  | case3 c t hcrlf hbreak ih =>
    rw [splitLines, if_pos hbreak]
    · exact ⟨nofun, ih⟩
    · exact hcrlf
  | case4 c t hcrlf hbreak ih =>
    rw [splitLines, if_neg hbreak]
    · exact terminated_consLine ih
    · exact hcrlf

/-- A character that breaks no line goes into the first one. -/
theorem splitLines_cons_of_not_isLineBreak (hc : isLineBreak c = false) (t : List Char) :
    splitLines (c :: t) = consLine c (splitLines t) := by
  have hreturn : c ≠ '\r' := by
    rintro rfl
    exact absurd hc (by decide)
  rw [splitLines, if_neg (by simp [hc])]
  rintro u rfl
  exact fun _ => hreturn rfl

/-- So does a text without line breaks. -/
theorem splitLines_append (ht : ∀ c ∈ t, isLineBreak c = false) (u : List Char) :
    splitLines (t ++ u) = t.foldr consLine (splitLines u) := by
  induction t with
  | nil => rfl
  | cons c t ih =>
    rw [List.cons_append, splitLines_cons_of_not_isLineBreak (ht c List.mem_cons_self),
      ih fun d hd => ht d (List.mem_cons_of_mem _ hd)]
    rfl

/-- A text put before some lines goes into the first. -/
theorem foldr_consLine_cons (t : List Char) (l : Line) (ls : List Line) :
    t.foldr consLine (l :: ls) = ⟨t ++ l.text, l.ending⟩ :: ls := by
  induction t with
  | nil => rfl
  | cons c t ih =>
    rw [List.foldr_cons, ih]
    rfl

/-- Before no lines it is a line of its own. -/
theorem foldr_consLine_nil (ht : t ≠ []) : t.foldr consLine [] = [⟨t, []⟩] := by
  induction t with
  | nil => exact absurd rfl ht
  | cons c t ih =>
    by_cases hnil : t = []
    · subst hnil
      rfl
    · rw [List.foldr_cons, ih hnil]
      rfl

/-- What ends a line is split off. -/
theorem splitLines_ending {e : List Char} (he : IsEnding e)
    (hsep : e = ['\r'] → t.head? ≠ some '\n') : splitLines (e ++ t) = ⟨[], e⟩ :: splitLines t := by
  rcases he with rfl | ⟨c, hc, rfl⟩
  · rw [List.cons_append, List.cons_append, splitLines]
    rfl
  · rw [List.singleton_append, splitLines, if_pos hc]
    rintro u rfl rfl
    exact hsep rfl rfl

/-- **What lines join to** is split into the lines, once those that nothing ends have gone
into the next ones. -/
theorem splitLines_joinLines (hls : ∀ l ∈ ls, IsLine l) (hsep : Separated ls) :
    splitLines (joinLines ls) = coalesce ls := by
  induction ls with
  | nil => rfl
  | cons l ls ih =>
    have hl := hls l List.mem_cons_self
    have hrest := ih (fun m hm => hls m (List.mem_cons_of_mem _ hm)) hsep.2
    rw [joinLines_cons, Line.full, List.append_assoc, splitLines_append hl.text, coalesce]
    by_cases hending : l.ending = []
    · have htext : l.text ≠ [] := by
        intro htext
        exact hl.full (by rw [Line.full, htext, hending, List.nil_append])
      rw [hending, List.nil_append, hrest, if_pos rfl]
      cases hcs : coalesce ls with
      | nil =>
        rw [foldr_consLine_nil htext, ← hending]
      | cons m ms => rw [foldr_consLine_cons]
    · rw [if_neg hending, splitLines_ending (hl.ending.resolve_left hending) hsep.1, hrest,
        foldr_consLine_cons, List.append_nil]

/-- With something at the end of every line but the last, nothing goes together. -/
theorem coalesce_of_terminated (h : Terminated ls) : coalesce ls = ls := by
  induction ls with
  | nil => rfl
  | cons l ls ih =>
    rw [coalesce, ih h.2]
    split_ifs with hending
    · rw [h.1 hending]
    · rfl

/-- The first line that is left starts with the text of the first line. -/
theorem head_coalesce (l : Line) (ls : List Line) :
    ∃ t m ms, coalesce (l :: ls) = m :: ms ∧ m.text = l.text ++ t := by
  rw [coalesce]
  split_ifs
  · cases coalesce ls with
    | nil => exact ⟨[], l, [], rfl, by rw [List.append_nil]⟩
    | cons m ms => exact ⟨m.text, _, ms, rfl, rfl⟩
  · exact ⟨[], l, _, rfl, by rw [List.append_nil]⟩

end Lines

section Partition

variable {c : Char} {t u k v : List Char}

/-- `t.partition(c)`, if the separator is found. -/
def partition (c : Char) : List Char → Option (List Char × List Char)
  | [] => none
  | d :: t => if d = c then some ([], t) else (partition c t).map fun r => (d :: r.1, r.2)

/-- `partition` splits at the first place where the character stands. -/
theorem partition_eq_some : partition c t = some (k, v) ↔ t = k ++ c :: v ∧ c ∉ k := by
  induction t generalizing k with
  | nil => simp [partition]
  | cons d t ih =>
    rw [partition]
    by_cases hd : d = c
    · rw [if_pos hd]
      constructor
      · intro h
        obtain ⟨rfl, rfl⟩ : [] = k ∧ t = v := by simpa using h
        exact ⟨by rw [hd]; rfl, nofun⟩
      · rintro ⟨h, hk⟩
        cases k with
        | nil =>
          obtain ⟨-, rfl⟩ := List.cons_eq_cons.mp h
          rfl
        | cons e k =>
          obtain ⟨rfl, -⟩ := List.cons_eq_cons.mp h
          exact absurd (hd ▸ List.mem_cons_self) hk
    · rw [if_neg hd, Option.map_eq_some_iff]
      constructor
      · rintro ⟨⟨k', v'⟩, hr, hkv⟩
        obtain ⟨rfl, rfl⟩ : d :: k' = k ∧ v' = v := by simpa using hkv
        obtain ⟨rfl, hk'⟩ := ih.mp hr
        exact ⟨rfl, by simp [hk', Ne.symm hd]⟩
      · rintro ⟨h, hk⟩
        cases k with
        | nil => exact absurd (List.cons_eq_cons.mp h).1 hd
        | cons e k =>
          obtain ⟨rfl, rfl⟩ := List.cons_eq_cons.mp h
          exact ⟨(k, v), ih.mpr ⟨rfl, fun hmem => hk (List.mem_cons_of_mem _ hmem)⟩, rfl⟩

/-- What follows goes to the second part. -/
theorem partition_append (hu : c ∉ u) (t : List Char) :
    partition c (t ++ u) = (partition c t).map fun r => (r.1, r.2 ++ u) := by
  induction t with
  | nil =>
    rw [List.nil_append, partition, Option.map_none, Option.eq_none_iff_forall_ne_some]
    rintro ⟨k, v⟩ h
    exact hu ((partition_eq_some.mp h).1 ▸ by simp)
  | cons d t ih =>
    rw [List.cons_append, partition, partition]
    split_ifs
    · rfl
    · rw [ih, Option.map_map, Option.map_map]
      rfl

end Partition

section Breaks

variable {c : Char} {t : List Char} {l : Line} {ls : List Line}

/-- How many characters of a text end lines. -/
def breaks (t : List Char) : ℕ := t.countP isLineBreak

/-- The line breaks of two texts are counted together. -/
theorem breaks_append (t u : List Char) : breaks (t ++ u) = breaks t + breaks u :=
  List.countP_append

/-- A text without line breaks has none. -/
theorem breaks_eq_zero (h : ∀ c ∈ t, isLineBreak c = false) : breaks t = 0 :=
  List.countP_eq_zero.mpr fun c hc => by simp [h c hc]

/-- An ending is nothing but line breaks. -/
theorem breaks_ending (h : l.ending = [] ∨ IsEnding l.ending) : breaks l.ending = l.ending.length := by
  rcases h with h | h | ⟨c, hc, h⟩
  · rw [h]
    rfl
  · rw [h]
    rfl
  · rw [h, breaks, List.countP_cons_of_pos hc]
    rfl

/-- A line has the line breaks of its ending. -/
theorem breaks_full (h : IsLine l) : breaks l.full = l.ending.length := by
  rw [Line.full, breaks_append, breaks_eq_zero h.text, breaks_ending h.ending, Nat.zero_add]

end Breaks

end Text
