/-
# Where the option tuple stands

The text before the option tuple ends with a line `OptionSettings = (`.  No match of
the three patterns goes over the end of that line: a match that starts before it is
decided by what stands before it.  So the sections and the options of a file are those
of the text before the tuple and those of what follows, each for itself.
-/

import PalworldManager.PalworldSettings.Values

namespace PalworldManager

open Text

section Literals

variable {p : Point → Bool} {t u word rest : Str} {b : Point}

/-- A literal is found where the text starts with it. -/
theorem literal_eq_some : literal word t = some rest ↔ t = word ++ rest := by
  rw [literal]
  constructor
  · intro h
    split_ifs at h with hprefix
    obtain ⟨v, rfl⟩ := List.isPrefixOf_iff_prefix.mp hprefix
    obtain rfl : v = rest := by simpa using h
    rfl
  · rintro rfl
    rw [if_pos (List.isPrefixOf_iff_prefix.mpr (List.prefix_append ..)), List.drop_left]

/-- A text with a character that a literal does not have decides whether it starts with
the literal. -/
theorem literal_append (hb : b ∈ u) (hword : b ∉ word) (t : Str) :
    literal word (u ++ t) = (literal word u).map (· ++ t) := by
  cases h : literal word u with
  | some rest =>
    obtain rfl := literal_eq_some.mp h
    rw [Option.map_some, literal_eq_some, List.append_assoc]
  | none =>
    rw [Option.map_none, Option.eq_none_iff_forall_ne_some]
    intro rest hrest
    have hprefix : word <+: u ++ t := ⟨rest, (literal_eq_some.mp hrest).symm⟩
    rcases List.prefix_or_prefix_of_prefix hprefix (List.prefix_append u t) with ⟨v, hv⟩ | ⟨v, hv⟩
    · rw [literal_eq_some.mpr hv.symm] at h
      cases h
    · exact hword (hv ▸ List.mem_append_left v hb)

/-- Where something stops the drop, it does not reach what follows. -/
theorem dropWhile_append (hb : b ∈ u) (hp : p b = false) (t : Str) :
    (u ++ t).dropWhile p = u.dropWhile p ++ t := by
  induction u with
  | nil => cases hb
  | cons c u ih =>
    rw [List.cons_append]
    by_cases hc : p c = true
    · rw [List.dropWhile_cons_of_pos hc, List.dropWhile_cons_of_pos hc]
      rcases List.mem_cons.mp hb with rfl | hb
      · simp [hc] at hp
      · exact ih hb
    · rw [List.dropWhile_cons_of_neg hc, List.dropWhile_cons_of_neg hc, List.cons_append]

/-- A character that stops the dropping, and what follows it, stay. -/
theorem dropWhile_append_cons (hp : p b = false) (u t : Str) :
    (u ++ b :: t).dropWhile p = u.dropWhile p ++ b :: t := by
  induction u with
  | nil => rw [List.nil_append, List.dropWhile_cons_of_neg (by simp [hp]), List.dropWhile_nil,
      List.nil_append]
  | cons c u ih =>
    rw [List.cons_append]
    by_cases hc : p c = true
    · rw [List.dropWhile_cons_of_pos hc, List.dropWhile_cons_of_pos hc, ih]
    · rw [List.dropWhile_cons_of_neg hc, List.dropWhile_cons_of_neg hc, List.cons_append]

/-- Neither does what is taken. -/
theorem takeWhile_append (hb : b ∈ u) (hp : p b = false) (t : Str) :
    (u ++ t).takeWhile p = u.takeWhile p := by
  induction u with
  | nil => cases hb
  | cons c u ih =>
    rw [List.cons_append]
    by_cases hc : p c = true
    · rw [List.takeWhile_cons_of_pos hc, List.takeWhile_cons_of_pos hc]
      rcases List.mem_cons.mp hb with rfl | hb
      · simp [hc] at hp
      · rw [ih hb]
    · rw [List.takeWhile_cons_of_neg hc, List.takeWhile_cons_of_neg hc]

/-- What stops the drop is left. -/
theorem mem_dropWhile (hb : b ∈ u) (hp : p b = false) : b ∈ u.dropWhile p := by
  rw [← List.takeWhile_append_dropWhile (p := p) (l := u)] at hb
  rcases List.mem_append.mp hb with hb | hb
  · rw [List.mem_takeWhile_imp hb] at hp
    cases hp
  · exact hb

/-- A text that is not white space only decides where its line ends. -/
theorem spacesToLineEnd_append (hb : b ∈ u) (hspace : b.isSpace = false) (t : Str) :
    spacesToLineEnd (u ++ t) = (spacesToLineEnd u).map (· ++ t) := by
  induction u with
  | nil => cases hb
  | cons c u ih =>
    rw [List.cons_append, spacesToLineEnd, spacesToLineEnd]
    by_cases hc : c.isSpace = true
    · have hu : b ∈ u := by
        rcases List.mem_cons.mp hb with rfl | hb
        · simp [hc] at hspace
        · exact hb
      rw [if_pos hc, if_pos hc, ih hu]
      cases spacesToLineEnd u with
      | some rest => rfl
      | none =>
        simp only [Option.map_none]
        split_ifs <;> rfl
    · rw [if_neg hc, if_neg hc, Option.map_none]

/-- What stands behind a match that ends a line. -/
theorem spacesToLineEnd_eq_some (h : spacesToLineEnd t = some rest) :
    (rest = [] ∨ ∃ v, rest = newline :: v) ∧ ∃ w, t = w ++ rest := by
  induction t generalizing rest with
  | nil =>
    obtain rfl : [] = rest := by simpa [spacesToLineEnd] using h
    exact ⟨.inl rfl, [], rfl⟩
  | cons c t ih =>
    rw [spacesToLineEnd] at h
    by_cases hc : c.isSpace = true
    · rw [if_pos hc] at h
      cases ht : spacesToLineEnd t with
      | some r =>
        rw [ht] at h
        obtain rfl : r = rest := by simpa using h
        obtain ⟨hrest, w, rfl⟩ := ih ht
        exact ⟨hrest, c :: w, rfl⟩
      | none =>
        rw [ht] at h
        simp only at h
        split_ifs at h with hline
        obtain rfl : c :: t = rest := by simpa using h
        exact ⟨.inr ⟨t, by rw [hline]⟩, [], rfl⟩
    · rw [if_neg hc] at h
      cases h

end Literals

section Finditer

variable {m : Pattern} {i k : ℕ} {before : Option Point} {t u w : Str}

/-- The character before a place that is so far behind another. -/
def lastBefore (before : Option Point) (w : Str) : Option Point := w.getLast?.or before

/-- Past no character, the last is the one before. -/
@[simp]
theorem lastBefore_nil (before : Option Point) : lastBefore before [] = before := rfl

/-- Past some characters, the first no longer counts. -/
theorem lastBefore_cons (before : Option Point) (c : Point) (w : Str) :
    lastBefore before (c :: w) = lastBefore (some c) w := by
  rw [lastBefore, lastBefore, List.getLast?_cons]
  cases w.getLast? <;> rfl

/-- The last character past two texts. -/
theorem lastBefore_append (before : Option Point) (w w' : Str) :
    lastBefore before (w ++ w') = lastBefore (lastBefore before w) w' := by
  rw [lastBefore, lastBefore, lastBefore, List.getLast?_append, Option.or_assoc]

/-- A pattern whose matches within a text are decided by the text. -/
def Decides (m : Pattern) (before : Option Point) (u : Str) : Prop :=
  ∀ w v, u = w ++ v → v ≠ [] → ∀ t,
    m (lastBefore before w) (v ++ t) = (m (lastBefore before w) v).map (· ++ t)

/-- What a text decides, its rest decides. -/
theorem Decides.tail {c : Point} (h : Decides m before (c :: u)) : Decides m (some c) u := by
  intro w v huv hv t
  have hcons := h (c :: w) v (by rw [huv, List.cons_append]) hv t
  rwa [lastBefore_cons] at hcons

/-- **Matches of two texts in a row.** -/
theorem finditer_append (h : Decides m before u) (hk : k ≤ u.length) (t : Str) :
    finditer m i k before (u ++ t) =
      finditer m i k before u ++ finditer m (i + u.length) 0 (lastBefore before u) t := by
  induction u generalizing i k before with
  | nil =>
    obtain rfl : k = 0 := by simpa using hk
    simp [finditer]
  | cons c u ih =>
    have hlen : i + (u.length + 1) = i + 1 + u.length := by omega
    rw [List.cons_append, lastBefore_cons, List.length_cons, hlen]
    cases k with
    | succ k =>
      rw [finditer, finditer]
      exact ih h.tail (by simpa using hk)
    | zero =>
      have hmatch := h [] (c :: u) rfl (by simp) t
      rw [lastBefore_nil, List.cons_append] at hmatch
      rw [finditer, finditer, hmatch]
      cases m before (c :: u) with
      | none => exact ih h.tail (by simp)
      | some rest =>
        have hsub : (u ++ t).length - (rest ++ t).length = u.length - rest.length := by
          simp only [List.length_append]
          omega
        have hsub' : (u ++ t).length + 1 - (rest ++ t).length = u.length + 1 - rest.length := by
          simp only [List.length_append]
          omega
        simp only [Option.map_some, hsub, hsub']
        rw [ih h.tail (by omega), List.cons_append]

/-- What is found in two texts is found in the first, or in the second. -/
theorem searchFrom_append (h : Decides m before u) (t : Str) :
    searchFrom m i before (u ++ t) =
      (searchFrom m i before u).or (searchFrom m (i + u.length) (lastBefore before u) t) := by
  induction u generalizing i before with
  | nil => rfl
  | cons c u ih =>
    have hlen : i + (u.length + 1) = i + 1 + u.length := by omega
    have hmatch := h [] (c :: u) rfl (by simp) t
    rw [lastBefore_nil, List.cons_append] at hmatch
    rw [List.cons_append, lastBefore_cons, List.length_cons, hlen, searchFrom, searchFrom, hmatch,
      Option.isSome_map]
    split_ifs
    · rfl
    · exact ih h.tail

/-- Where a match of a text stands. -/
theorem mem_finditer {a b : ℕ} (h : (a, b) ∈ finditer m i k before t) :
    ∃ w u rest, t = w ++ u ∧ u ≠ [] ∧ a = i + w.length ∧ k ≤ w.length ∧
      m (lastBefore before w) u = some rest ∧ b = a + (u.length - rest.length) := by
  induction t generalizing i k before with
  | nil => simp [finditer] at h
  | cons c t ih =>
    have hlater {k' : ℕ} (h : (a, b) ∈ finditer m (i + 1) k' (some c) t) (hk : k ≤ k' + 1) :
        ∃ w u rest, c :: t = w ++ u ∧ u ≠ [] ∧ a = i + w.length ∧ k ≤ w.length ∧
          m (lastBefore before w) u = some rest ∧ b = a + (u.length - rest.length) := by
      obtain ⟨w, u, rest, rfl, hu, ha, hk', hm, hb⟩ := ih h
      refine ⟨c :: w, u, rest, rfl, hu, ?_, ?_, by rwa [lastBefore_cons], hb⟩
      · rw [ha, List.length_cons]
        omega
      · rw [List.length_cons]
        omega
    cases k with
    | succ k =>
      rw [finditer] at h
      exact hlater h le_rfl
    | zero =>
      rw [finditer] at h
      cases hm : m before (c :: t) with
      | none =>
        rw [hm] at h
        exact hlater h (Nat.zero_le _)
      | some rest =>
        rw [hm] at h
        rcases List.mem_cons.mp h with h | h
        · obtain ⟨rfl, rfl⟩ : a = i ∧ b = i + (t.length + 1 - rest.length) := by simpa using h
          exact ⟨[], c :: t, rest, rfl, by simp, rfl, le_rfl, hm, rfl⟩
        · exact hlater h (Nat.zero_le _)

/-- Where no line starts there is no match: the text is passed over. -/
theorem finditer_oneLine (hm : ∀ before t, (m before t).isSome → atLineStart before)
    (hu : newline ∉ u) (hb : atLineStart before = false) (t : Str) :
    finditer m i 0 before (u ++ t) = finditer m (i + u.length) 0 (lastBefore before u) t := by
  induction u generalizing i before with
  | nil => rfl
  | cons c u ih =>
    have hlen : i + (u.length + 1) = i + 1 + u.length := by omega
    have hnone : m before (c :: (u ++ t)) = none := by
      cases hmatch : m before (c :: (u ++ t)) with
      | none => rfl
      | some rest => simp [hm before _ (by rw [hmatch]; rfl)] at hb
    rw [List.mem_cons, not_or] at hu
    rw [List.cons_append, finditer, hnone, lastBefore_cons, List.length_cons, hlen]
    exact ih hu.2 (by simpa [atLineStart] using Ne.symm hu.1)

/-- What starts a line is not found in a line that has started. -/
theorem searchFrom_oneLine (hm : ∀ before t, (m before t).isSome → atLineStart before)
    (hu : newline ∉ u) (hb : atLineStart before = false) (t : Str) :
    searchFrom m i before (u ++ t) = searchFrom m (i + u.length) (lastBefore before u) t := by
  induction u generalizing i before with
  | nil => rfl
  | cons c u ih =>
    have hlen : i + (u.length + 1) = i + 1 + u.length := by omega
    have hnone : ¬((m before (c :: (u ++ t))).isSome = true) := by
      intro hsome
      simp [hm before _ hsome] at hb
    rw [List.mem_cons, not_or] at hu
    rw [List.cons_append, searchFrom, if_neg hnone, lastBefore_cons, List.length_cons, hlen]
    exact ih hu.2 (by simpa [atLineStart] using Ne.symm hu.1)

/-- An index is only counted. -/
theorem finditer_shift (n : ℕ) :
    finditer m (i + n) k before t = (finditer m i k before t).map fun r => (r.1 + n, r.2 + n) := by
  induction t generalizing i k before with
  | nil => cases k <;> rfl
  | cons c t ih =>
    have hcomm : i + n + 1 = i + 1 + n := by omega
    cases k with
    | succ k => rw [finditer, finditer, hcomm, ih]
    | zero =>
      rw [finditer, finditer, hcomm]
      cases m before (c :: t) with
      | none => exact ih
      | some rest =>
        have hstop : i + n + (t.length + 1 - rest.length) = i + (t.length + 1 - rest.length) + n := by
          omega
        simp only [List.map_cons, hstop]
        rw [ih]

/-- What is found is found from another index, as far on. -/
theorem searchFrom_shift (n : ℕ) :
    searchFrom m (i + n) before t = (searchFrom m i before t).map (· + n) := by
  induction t generalizing i before with
  | nil => rfl
  | cons c t ih =>
    have hcomm : i + n + 1 = i + 1 + n := by omega
    rw [searchFrom, searchFrom, hcomm, ih]
    split_ifs <;> rfl

end Finditer

section Heads

variable {before : Option Point} {t u v w rest L P : Str}

/-- The pattern of the section, step by step. -/
theorem sectionPattern_eq (before : Option Point) (t : Str) :
    sectionPattern before t = if atLineStart before then
      (literal sectionHeader (t.dropWhile Point.isSpace)).bind spacesToLineEnd else none := by
  by_cases h : atLineStart before = true
  · simp [sectionPattern, h]
  · simp only [sectionPattern, h]
    rfl

/-- The pattern of the next section, step by step. -/
theorem nextSectionPattern_eq (before : Option Point) (t : Str) :
    nextSectionPattern before t = if atLineStart before then
      (literal (str "[") (t.dropWhile Point.isSpace)).bind fun name =>
        if name.takeWhile isSectionName ≠ [] then
          (literal (str "]") (name.dropWhile isSectionName)).bind spacesToLineEnd
        else none
      else none := by
  by_cases h : atLineStart before = true
  · simp only [nextSectionPattern, h, guard_true, if_true, Option.pure_def, Option.bind_eq_bind,
      Option.bind_some]
    congr 1
    funext name
    by_cases hname : name.takeWhile isSectionName ≠ [] <;> simp [guard, hname]
  · simp only [nextSectionPattern, h]
    rfl

/-- The pattern of the option, step by step. -/
theorem optionPattern_eq (before : Option Point) (t : Str) :
    optionPattern before t = if atLineStart before then
      (literal (str "OptionSettings") (t.dropWhile isTab)).bind fun t =>
        (literal (str "=") (t.dropWhile isTab)).bind fun t =>
          literal (str "(") (t.dropWhile isTab)
      else none := by
  by_cases h : atLineStart before = true
  · simp [optionPattern, h]
  · simp only [optionPattern, h]
    rfl

/-- The section starts a line. -/
theorem sectionPattern_atLineStart (before : Option Point) (t : Str)
    (h : (sectionPattern before t).isSome) : atLineStart before = true := by
  rw [sectionPattern_eq] at h
  by_contra hb
  simp [hb] at h

/-- So does the next. -/
theorem nextSectionPattern_atLineStart (before : Option Point) (t : Str)
    (h : (nextSectionPattern before t).isSome) : atLineStart before = true := by
  rw [nextSectionPattern_eq] at h
  by_contra hb
  simp [hb] at h

/-- So does the option. -/
theorem optionPattern_atLineStart (before : Option Point) (t : Str)
    (h : (optionPattern before t).isSome) : atLineStart before = true := by
  rw [optionPattern_eq] at h
  by_contra hb
  simp [hb] at h

/-- The start of a line up to the parenthesis that opens the option tuple. -/
structure IsOptionLine (L : Str) : Prop where
  parts : ∃ b₁ b₂ b₃, (∀ c ∈ b₁, isTab c = true) ∧ (∀ c ∈ b₂, isTab c = true) ∧
    (∀ c ∈ b₃, isTab c = true) ∧
    L = b₁ ++ (str "OptionSettings" ++ (b₂ ++ (str "=" ++ (b₃ ++ str "("))))

/-- A text that ends with the start of the option tuple. -/
structure IsHead (P : Str) : Prop where
  parts : ∃ Q L, P = Q ++ newline :: L ∧ IsOptionLine L

/-- A tab or a blank is white space, and ends no line. -/
theorem isTab_isSpace {c : Point} (h : isTab c = true) : c.isSpace = true ∧ c ≠ newline := by
  rw [isTab, Bool.or_eq_true, beq_iff_eq, beq_iff_eq] at h
  rcases h with rfl | rfl <;> decide

/-- An option line is one line. -/
theorem IsOptionLine.newline_notMem (h : IsOptionLine L) : newline ∉ L := by
  obtain ⟨b₁, b₂, b₃, h₁, h₂, h₃, rfl⟩ := h.parts
  have hword : newline ∉ str "OptionSettings" := by decide
  have hequal : newline ∉ str "=" := by decide
  have hopen : newline ∉ str "(" := by decide
  simp only [List.mem_append, hword, hequal, hopen, or_false, false_or, not_or]
  exact ⟨fun h => (isTab_isSpace (h₁ _ h)).2 rfl, fun h => (isTab_isSpace (h₂ _ h)).2 rfl,
    fun h => (isTab_isSpace (h₃ _ h)).2 rfl⟩

/-- The line ends with the opening parenthesis. -/
theorem IsOptionLine.exists_append (h : IsOptionLine L) : ∃ u, L = u ++ [.ofChar '('] := by
  obtain ⟨b₁, b₂, b₃, -, -, -, rfl⟩ := h.parts
  exact ⟨b₁ ++ (str "OptionSettings" ++ (b₂ ++ (str "=" ++ b₃))), by simp [str]⟩

/-- What is dropped whole is dropped. -/
theorem dropWhile_of_all {p : Point → Bool} (hu : ∀ c ∈ u, p c = true) (t : Str) :
    (u ++ t).dropWhile p = t.dropWhile p := by
  induction u with
  | nil => rfl
  | cons c u ih =>
    rw [List.cons_append, List.dropWhile_cons_of_pos (hu c List.mem_cons_self)]
    exact ih fun d hd => hu d (List.mem_cons_of_mem _ hd)

/-- Where the first character stays, all stays. -/
theorem dropWhile_of_head {p : Point → Bool} {c : Point} (hu : u.head? = some c)
    (hc : p c = false) (t : Str) : (u ++ t).dropWhile p = u ++ t := by
  cases u with
  | nil => cases hu
  | cons d u =>
    obtain rfl : d = c := by simpa using hu
    exact List.dropWhile_cons_of_neg (by simp [hc])

/-- What follows the white space of the line is no section. -/
theorem IsOptionLine.literal_bracket (h : IsOptionLine L) (t : Str) :
    literal (str "[") ((L ++ t).dropWhile Point.isSpace) = none := by
  obtain ⟨b₁, b₂, b₃, h₁, -, -, rfl⟩ := h.parts
  have hO : Point.isSpace (.ofChar 'O') = false := by decide
  rw [List.append_assoc, dropWhile_of_all fun c hc => (isTab_isSpace (h₁ c hc)).1,
    List.append_assoc, dropWhile_of_head rfl hO]
  rfl

/-- The pattern of the options matches the line. -/
theorem IsOptionLine.optionPattern (h : IsOptionLine L) (hb : atLineStart before = true)
    (t : Str) : optionPattern before (L ++ t) = some t := by
  obtain ⟨b₁, b₂, b₃, h₁, h₂, h₃, rfl⟩ := h.parts
  have hO : isTab (.ofChar 'O') = false := by decide
  have hequal : isTab (.ofChar '=') = false := by decide
  have hopen : isTab (.ofChar '(') = false := by decide
  rw [optionPattern_eq, if_pos hb]
  simp only [List.append_assoc]
  rw [dropWhile_of_all h₁, dropWhile_of_head rfl hO, literal_eq_some.mpr rfl, Option.bind_some,
    dropWhile_of_all h₂, dropWhile_of_head rfl hequal, literal_eq_some.mpr rfl, Option.bind_some,
    dropWhile_of_all h₃, dropWhile_of_head rfl hopen, literal_eq_some.mpr rfl]

/-- What the pattern of the options matches is such a line. -/
theorem optionPattern_eq_some (h : optionPattern before u = some rest) :
    atLineStart before = true ∧ ∃ L, IsOptionLine L ∧ u = L ++ rest := by
  have hb := optionPattern_atLineStart before u (by rw [h]; rfl)
  rw [optionPattern_eq, if_pos hb] at h
  obtain ⟨t₁, h₁, h⟩ := Option.bind_eq_some_iff.mp h
  obtain ⟨t₂, h₂, h₃⟩ := Option.bind_eq_some_iff.mp h
  rw [literal_eq_some] at h₁ h₂ h₃
  refine ⟨hb, _, ⟨u.takeWhile isTab, t₁.takeWhile isTab, t₂.takeWhile isTab,
    fun _ => List.mem_takeWhile_imp, fun _ => List.mem_takeWhile_imp,
    fun _ => List.mem_takeWhile_imp, rfl⟩, ?_⟩
  simp only [List.append_assoc]
  rw [← h₃, List.takeWhile_append_dropWhile, ← h₂, List.takeWhile_append_dropWhile, ← h₁,
    List.takeWhile_append_dropWhile]

/-- The places of a head: before the end of the line above the tuple, at the start of
the line of the tuple, or within that line. -/
theorem head_cases {Q : Str} (h : Q ++ newline :: L = w ++ v) :
    (∃ v₁, v = v₁ ++ newline :: L) ∨ v = L ∨
      ∃ w₁ c, w = w₁ ++ [c] ∧ c ∈ L := by
  rcases List.append_eq_append_iff.mp h with ⟨a, rfl, ha⟩ | ⟨a, rfl, ha⟩
  · cases a with
    | nil => exact .inl ⟨[], ha.symm⟩
    | cons c a =>
      obtain ⟨rfl, rfl⟩ : newline = c ∧ L = a ++ v := by simpa using ha
      rcases List.eq_nil_or_concat a with rfl | ⟨a', d, rfl⟩
      · exact .inr (.inl rfl)
      · refine .inr (.inr ⟨Q ++ newline :: a', d, by simp, by simp⟩)
  · exact .inl ⟨a, ha⟩

/-- Within the line of the tuple no line starts. -/
theorem lastBefore_of_mem {w₁ : Str} {c : Point} (hL : newline ∉ L) (hw : w = w₁ ++ [c])
    (hc : c ∈ L) : atLineStart (lastBefore before w) = false := by
  subst hw
  have hne : c ≠ newline := fun hn => hL (hn ▸ hc)
  simp [lastBefore, atLineStart, hne]

/-- Within a line nothing is found, whatever follows. -/
theorem eq_map_of_not_atLineStart {m : Pattern}
    (hm : ∀ before t, (m before t).isSome → atLineStart before)
    (h : atLineStart before = false) (v t : Str) :
    m before (v ++ t) = (m before v).map (· ++ t) := by
  have hnone (u : Str) : m before u = none := by
    cases hu : m before u with
    | none => rfl
    | some rest => simp [hm before u (by rw [hu]; rfl)] at h
  rw [hnone, hnone, Option.map_none]

/-- A head decides its sections. -/
theorem IsHead.decides_section (h : IsHead P) (before : Option Point) :
    Decides sectionPattern before P := by
  obtain ⟨Q, L, rfl, hL⟩ := h.parts
  obtain ⟨u, rfl⟩ := hL.exists_append
  intro w v hwv hv t
  have hmem : Point.ofChar '(' ∈ v := by
    have hlast := congrArg List.getLast? hwv
    rw [List.getLast?_append_of_ne_nil _ hv] at hlast
    rw [← List.cons_append, ← List.append_assoc, List.getLast?_concat] at hlast
    exact List.mem_of_getLast? hlast.symm
  have hspace : Point.isSpace (.ofChar '(') = false := by decide
  have hheader : Point.ofChar '(' ∉ sectionHeader := by decide
  rw [sectionPattern_eq, sectionPattern_eq]
  split_ifs
  · have hdrop := mem_dropWhile hmem hspace
    rw [dropWhile_append hmem hspace, literal_append hdrop hheader]
    cases hlit : literal sectionHeader (v.dropWhile Point.isSpace) with
    | none => rfl
    | some rest =>
      rw [literal_eq_some.mp hlit, List.mem_append] at hdrop
      exact spacesToLineEnd_append (hdrop.resolve_left hheader) hspace t
  · rfl

/-- A head decides whether a section starts in it. -/
theorem IsHead.decides_nextSection (h : IsHead P) (before : Option Point) :
    Decides nextSectionPattern before P := by
  obtain ⟨Q, L, rfl, hL⟩ := h.parts
  intro w v hwv hv t
  rcases head_cases hwv with ⟨v₁, rfl⟩ | rfl | ⟨w₁, c, hw, hc⟩
  · rw [nextSectionPattern_eq, nextSectionPattern_eq]
    split_ifs
    · have hname : isSectionName newline = false := by decide
      have hbracket : newline ∉ str "]" := by decide
      have hspace : Point.isSpace (.ofChar '(') = false := by decide
      obtain ⟨u, hu⟩ := hL.exists_append
      have hopen : Point.ofChar '(' ∈ L := by simp [hu]
      by_cases hblank : ∀ c ∈ v₁, c.isSpace = true
      · have hnl : ∀ c ∈ v₁ ++ [newline], Point.isSpace c = true := by
          intro c hc
          rcases List.mem_append.mp hc with hc | hc
          · exact hblank c hc
          · rw [List.mem_singleton.mp hc]
            decide
        have hdrop (u : Str) : (v₁ ++ newline :: u).dropWhile Point.isSpace =
            u.dropWhile Point.isSpace := by
          rw [← dropWhile_of_all hnl u, List.append_assoc, List.singleton_append]
        have hnone := hL.literal_bracket []
        rw [List.append_nil] at hnone
        rw [List.append_assoc, List.cons_append, hdrop, hdrop, hL.literal_bracket t, hnone]
        rfl
      · push Not at hblank
        obtain ⟨b, hb, hbs⟩ := hblank
        have hbs' : b.isSpace = false := by simpa using hbs
        rw [List.append_assoc, dropWhile_append hb hbs', dropWhile_append hb hbs']
        have hne : v₁.dropWhile Point.isSpace ≠ [] :=
          List.ne_nil_of_mem (mem_dropWhile hb hbs')
        obtain ⟨c, r, hr⟩ := List.exists_cons_of_ne_nil hne
        rw [hr]
        by_cases hc : c = .ofChar '['
        · subst hc
          have hlit (u : Str) : literal (str "[") (.ofChar '[' :: r ++ u) = some (r ++ u) :=
            literal_eq_some.mpr rfl
          have hmem : newline ∈ r ++ newline :: L := by simp
          rw [hlit, hlit, Option.bind_some, Option.bind_some, ← List.append_assoc,
            takeWhile_append hmem hname, dropWhile_append hmem hname]
          split_ifs
          · have hkept := mem_dropWhile hmem hname
            rw [literal_append hkept hbracket]
            cases hrest : literal (str "]") ((r ++ newline :: L).dropWhile isSectionName) with
            | none => rfl
            | some rest =>
              have hclose : Point.ofChar '(' ∉ str "]" := by decide
              have hin : Point.ofChar '(' ∈ (r ++ newline :: L).dropWhile isSectionName := by
                rw [dropWhile_append_cons hname]
                simp [hopen]
              rw [literal_eq_some.mp hrest, List.mem_append] at hin
              exact spacesToLineEnd_append (hin.resolve_left hclose) hspace t
          · rfl
        · have hlit (u : Str) : literal (str "[") (c :: r ++ u) = none := by
            rw [Option.eq_none_iff_forall_ne_some]
            intro rest hrest
            exact hc (by simpa [str] using congrArg List.head? (literal_eq_some.mp hrest))
          rw [hlit, hlit]
          rfl
    · rfl
  · have hnone := hL.literal_bracket []
    rw [List.append_nil] at hnone
    rw [nextSectionPattern_eq, nextSectionPattern_eq, hL.literal_bracket t, hnone]
    split_ifs <;> rfl
  · exact eq_map_of_not_atLineStart nextSectionPattern_atLineStart
      (lastBefore_of_mem hL.newline_notMem hw hc) v t

/-- It decides whether an option stands in it. -/
theorem IsHead.decides_option (h : IsHead P) (before : Option Point) :
    Decides optionPattern before P := by
  obtain ⟨Q, L, rfl, hL⟩ := h.parts
  intro w v hwv hv t
  rcases head_cases hwv with ⟨v₁, rfl⟩ | rfl | ⟨w₁, c, hw, hc⟩
  · have hmem : newline ∈ v₁ ++ newline :: L := by simp
    have htab : isTab newline = false := by decide
    have hstep {word u : Str} (hu : newline ∈ u) (hword : newline ∉ word)
        {k : Str → Option Str} (hk : ∀ r, newline ∈ r → k (r ++ t) = (k r).map (· ++ t)) :
        (literal word ((u ++ t).dropWhile isTab)).bind k =
          ((literal word (u.dropWhile isTab)).bind k).map (· ++ t) := by
      have hdrop := mem_dropWhile hu htab
      rw [dropWhile_append hu htab, literal_append hdrop hword]
      cases hlit : literal word (u.dropWhile isTab) with
      | none => rfl
      | some rest =>
        rw [literal_eq_some.mp hlit, List.mem_append] at hdrop
        exact hk rest (hdrop.resolve_left hword)
    have hword : newline ∉ str "OptionSettings" := by decide
    have hequal : newline ∉ str "=" := by decide
    have hopen : newline ∉ str "(" := by decide
    rw [optionPattern_eq, optionPattern_eq]
    split_ifs
    · refine hstep hmem hword fun r₁ hr₁ => hstep hr₁ hequal fun r₂ hr₂ => ?_
      rw [dropWhile_append hr₂ htab, literal_append (mem_dropWhile hr₂ htab) hopen]
    · rfl
  · by_cases hb : atLineStart (lastBefore before w) = true
    · have hself := hL.optionPattern hb []
      rw [List.append_nil] at hself
      rw [hL.optionPattern hb, hself, Option.map_some, List.nil_append]
    · exact eq_map_of_not_atLineStart optionPattern_atLineStart (by simpa using hb) _ t
  · exact eq_map_of_not_atLineStart optionPattern_atLineStart
      (lastBefore_of_mem hL.newline_notMem hw hc) v t

end Heads

end PalworldManager
