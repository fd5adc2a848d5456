/-
# Section headers, line by line

`NEXT_SECTION_PATTERN` finds a line that is a name in brackets, whatever white space
stands around it.  `LineScan` finds the same lines character by character, so that what
it has seen of a text is one state, and two texts that leave it in the same state have the
same headers behind them (`run_iff`).
-/

import PalworldManager.PalworldSettings.Edits

namespace PalworldManager

open Text

/-- Where a scan for headers stands: in the white space in front of a line, in the name of
a header, behind its bracket, in a line that is no header, or behind a header. -/
inductive LineScan where
  | start
  | header (named : Bool)
  | closed
  | other
  | found
  deriving DecidableEq, Repr

/-- The state after a character. -/
def LineScan.next : LineScan → Point → LineScan
  | .start, c =>
      if c.isSpace then .start else if c = .ofChar '[' then .header false else .other
  | .header named, c =>
      if c = newline then .start
      else if c = .ofChar '\r' then .other
      else if c = .ofChar ']' then if named then .closed else .other
      else .header true
  | .closed, c => if c = newline then .found else if c.isSpace then .closed else .other
  | .other, c => if c = newline then .start else .other
  | .found, _ => .found

/-- The state after a text. -/
def LineScan.run (s : LineScan) (t : Str) : LineScan := t.foldl LineScan.next s

/-- A header starts here, behind some white space. -/
def Header (t : Str) : Prop := (nextSectionPattern none t).isSome

/-- A header goes on here, with its name. -/
def HeaderName (named : Bool) (t : Str) : Prop :=
  (named = true ∨ t.takeWhile isSectionName ≠ []) ∧
    ((literal (str "]") (t.dropWhile isSectionName)).bind spacesToLineEnd).isSome

/-- A header ends here, with white space. -/
def HeaderEnd (t : Str) : Prop := (spacesToLineEnd t).isSome

/-- A header starts within a text or at its end, with some text behind. -/
def HeaderIn (atStart : Bool) : Str → Str → Prop
  | [], t => atStart = true ∧ Header t
  | c :: u, t => (atStart = true ∧ Header (c :: u ++ t)) ∨ HeaderIn (c == newline) u t

/-- What is left of a header that the scan is in. -/
def LineScan.Completes (t : Str) : LineScan → Prop
  | .start => Header t
  | .header named => HeaderName named t
  | .closed => HeaderEnd t
  | .other => False
  | .found => True

section Parts

variable {named : Bool} {c : Point} {t : Str}

/-- A header starts behind white space with a bracket. -/
theorem header_cons :
    Header (c :: t) ↔ if c.isSpace then Header t else c = .ofChar '[' ∧ HeaderName false t := by
  have hstart : atLineStart none = true := rfl
  rw [Header, Header, nextSectionPattern_eq, nextSectionPattern_eq, if_pos hstart, if_pos hstart]
  by_cases hc : c.isSpace = true
  · rw [List.dropWhile_cons_of_pos hc, if_pos hc]
  · rw [List.dropWhile_cons_of_neg hc, if_neg hc]
    by_cases hopen : c = .ofChar '['
    · subst hopen
      have hliteral : literal (str "[") (.ofChar '[' :: t) = some t := literal_eq_some.mpr rfl
      rw [hliteral, Option.bind_some, HeaderName]
      by_cases hname : t.takeWhile isSectionName = []
      · simp [hname]
      · simp [hname]
    · have hliteral : literal (str "[") (c :: t) = none := by
        rw [Option.eq_none_iff_forall_ne_some]
        intro rest hrest
        exact hopen (List.cons_eq_cons.mp (literal_eq_some.mp hrest)).1
      simp [hliteral, hopen]

/-- The name of a header goes on to the closing bracket. -/
theorem headerName_cons :
    HeaderName named (c :: t) ↔
      if isSectionName c then HeaderName true t
      else named = true ∧ c = .ofChar ']' ∧ HeaderEnd t := by
  rw [HeaderName]
  by_cases hc : isSectionName c = true
  · rw [List.takeWhile_cons_of_pos hc, List.dropWhile_cons_of_pos hc, if_pos hc, HeaderName]
    simp
  · rw [List.takeWhile_cons_of_neg hc, List.dropWhile_cons_of_neg hc, if_neg hc]
    by_cases hclose : c = .ofChar ']'
    · subst hclose
      have hliteral : literal (str "]") (.ofChar ']' :: t) = some t := literal_eq_some.mpr rfl
      rw [hliteral, Option.bind_some, HeaderEnd]
      simp
    · have hliteral : literal (str "]") (c :: t) = none := by
        rw [Option.eq_none_iff_forall_ne_some]
        intro rest hrest
        exact hclose (List.cons_eq_cons.mp (literal_eq_some.mp hrest)).1
      simp [hliteral, hclose]

/-- Behind a header there is white space to the end of the line. -/
theorem headerEnd_cons :
    HeaderEnd (c :: t) ↔ c.isSpace = true ∧ (HeaderEnd t ∨ c = newline) := by
  rw [HeaderEnd, HeaderEnd, spacesToLineEnd]
  by_cases hc : c.isSpace = true
  · rw [if_pos hc]
    cases spacesToLineEnd t with
    | some rest => simp [hc]
    | none =>
      by_cases hline : c = newline
      · subst hline
        simp [hc]
      · simp [hline]
  · simp [hc]

end Parts

section Run

variable {s : LineScan} {atStart : Bool} {c : Point} {t u : Str}

/-- A line feed is white space. -/
theorem isSpace_newline : newline.isSpace = true := by decide

/-- The characters of a name: all but three. -/
theorem isSectionName_eq : isSectionName c = true ↔
    c ≠ .ofChar ']' ∧ c ≠ .ofChar '\r' ∧ c ≠ newline := by
  simp [isSectionName, and_assoc]

/-- A header that starts at a place starts at the place or behind it. -/
theorem headerIn_true (h : Header (u ++ t)) : HeaderIn true u t := by
  cases u with
  | nil => exact ⟨rfl, h⟩
  | cons c u => exact .inl ⟨rfl, h⟩

/-- **The scan finds the headers.**  It completes one exactly if one starts in the text, or
if one started before. -/
theorem run_iff (u t : Str) (s : LineScan) :
    (s.run u).Completes t ↔
      match s with
      | .start => HeaderIn true u t
      | .header named => HeaderName named (u ++ t) ∨ HeaderIn false u t
      | .closed => HeaderEnd (u ++ t) ∨ HeaderIn false u t
      | .other => HeaderIn false u t
      | .found => True := by
  induction u generalizing s with
  | nil =>
    cases s <;> simp [LineScan.run, LineScan.Completes, HeaderIn]
  | cons c u ih =>
    have hrun : s.run (c :: u) = (s.next c).run u := rfl
    rw [hrun, ih]
    cases s with
    | start =>
      by_cases hc : c.isSpace = true
      · simp only [LineScan.next, if_pos hc, HeaderIn, true_and, List.cons_append, header_cons]
        by_cases hline : c = newline
        · subst hline
          simp only [beq_self_eq_true]
          exact ⟨.inr, fun h => h.elim headerIn_true id⟩
        · have hbeq : (c == newline) = false := by simpa using hline
          rw [hbeq]
          cases u with
          | nil => simp [HeaderIn]
          | cons d u => simp [HeaderIn]
      · have hline : (c == newline) = false := by
          rw [beq_eq_false_iff_ne]
          rintro rfl
          exact hc isSpace_newline
        simp only [LineScan.next, if_neg hc, HeaderIn, true_and, List.cons_append, header_cons, hline]
        by_cases hopen : c = .ofChar '[' <;> simp [hopen]
    | header named =>
      simp only [LineScan.next, HeaderIn, List.cons_append, headerName_cons, isSectionName_eq,
        Bool.false_eq_true, false_and, false_or]
      by_cases hline : c = newline
      · subst hline
        have hclose : newline ≠ Point.ofChar ']' := by decide
        simp [hclose]
      · have hbeq : (c == newline) = false := by simpa using hline
        by_cases hreturn : c = .ofChar '\r'
        · subst hreturn
          have hclose : Point.ofChar '\r' ≠ Point.ofChar ']' := by decide
          simp [hclose, hbeq, hline]
        · by_cases hclose : c = .ofChar ']'
          · subst hclose
            cases named <;> simp [hbeq, hline, hreturn]
          · simp [hbeq, hline, hreturn, hclose]
    | closed =>
      simp only [LineScan.next, HeaderIn, List.cons_append, headerEnd_cons,
        Bool.false_eq_true, false_and, false_or]
      by_cases hline : c = newline
      · subst hline
        simp [isSpace_newline]
      · have hbeq : (c == newline) = false := by simpa using hline
        by_cases hc : c.isSpace = true <;> simp [hline, hbeq, hc]
    | other =>
      simp only [LineScan.next, HeaderIn, Bool.false_eq_true, false_and, false_or]
      by_cases hline : c = newline
      · subst hline
        simp
      · have hbeq : (c == newline) = false := by simpa using hline
        simp [hline, hbeq]
    | found => simp [LineScan.next]

end Run

section Places

variable {m : Pattern} {i : ℕ} {before : Option Point} {t u v L P S : Str} {c : Point}

/-- There is no match exactly if there is none at any place. -/
theorem finditer_eq_nil : finditer m i 0 before t = [] ↔
    ∀ w v, t = w ++ v → v ≠ [] → m (lastBefore before w) v = none := by
  induction t generalizing i before with
  | nil =>
    refine ⟨fun _ w v hwv hv => absurd (List.append_eq_nil_iff.mp hwv.symm).2 hv, fun _ => rfl⟩
  | cons c t ih =>
    rw [finditer]
    constructor
    · intro h w v hwv hv
      cases hm : m before (c :: t) with
      | some rest => simp [hm] at h
      | none =>
        rw [hm] at h
        cases w with
        | nil =>
          obtain rfl : c :: t = v := hwv
          exact hm
        | cons d w =>
          obtain ⟨rfl, rfl⟩ := List.cons_eq_cons.mp hwv
          rw [lastBefore_cons]
          exact ih.mp h w v rfl hv
    · intro h
      have hm : m before (c :: t) = none := h [] (c :: t) rfl (by simp)
      rw [hm]
      refine ih.mpr fun w v hwv hv => ?_
      have htail := h (c :: w) v (by rw [hwv, List.cons_append]) hv
      rwa [lastBefore_cons] at htail

/-- A header in a text starts at one of its lines. -/
theorem headerIn_iff : HeaderIn (atLineStart before) u t ↔
    ∃ w v, u = w ++ v ∧ atLineStart (lastBefore before w) = true ∧ Header (v ++ t) := by
  induction u generalizing before with
  | nil =>
    constructor
    · rintro ⟨hb, h⟩
      exact ⟨[], [], rfl, hb, h⟩
    · rintro ⟨w, v, hwv, hb, h⟩
      obtain ⟨rfl, rfl⟩ := List.append_eq_nil_iff.mp hwv.symm
      exact ⟨hb, h⟩
  | cons c u ih =>
    have hnext : atLineStart (some c) = (c == newline) := rfl
    rw [HeaderIn, ← hnext, ih]
    constructor
    · rintro (⟨hb, h⟩ | ⟨w, v, rfl, hb, h⟩)
      · exact ⟨[], c :: u, rfl, hb, h⟩
      · exact ⟨c :: w, v, rfl, by rwa [lastBefore_cons], h⟩
    · rintro ⟨w, v, hwv, hb, h⟩
      cases w with
      | nil =>
        obtain rfl : c :: u = v := hwv
        exact .inl ⟨hb, h⟩
      | cons d w =>
        obtain ⟨rfl, rfl⟩ := List.cons_eq_cons.mp hwv
        rw [lastBefore_cons] at hb
        exact .inr ⟨w, v, rfl, hb, h⟩

/-- The header of the settings is a header. -/
theorem header_of_sectionPattern (h : (sectionPattern before t).isSome) : Header t := by
  have hb := sectionPattern_atLineStart before t h
  obtain ⟨name, hheader, hname⟩ : ∃ name : Str, sectionHeader = .ofChar '[' :: (name ++ [.ofChar ']']) ∧
      ∀ c ∈ name, isSectionName c = true :=
    ⟨str "/Script/Pal.PalGameWorldSettings", by decide,
      List.all_eq_true.mp (by decide)⟩
  have hne : name ≠ [] := by
    rintro rfl
    exact absurd hheader (by decide)
  rw [sectionPattern_eq, if_pos hb] at h
  obtain ⟨rest, hrest⟩ := Option.isSome_iff_exists.mp h
  obtain ⟨r, hr, hend⟩ := Option.bind_eq_some_iff.mp hrest
  have hline : atLineStart none = true := rfl
  have hclose : isSectionName (.ofChar ']') = false := by decide
  have hopen : literal (str "[") (t.dropWhile Point.isSpace) = some (name ++ .ofChar ']' :: r) := by
    rw [literal_eq_some, literal_eq_some.mp hr, hheader]
    simp [str]
  have htake : (name ++ .ofChar ']' :: r).takeWhile isSectionName = name := by
    rw [List.takeWhile_append_of_pos hname, List.takeWhile_cons_of_neg (by simp [hclose]),
      List.append_nil]
  have hdrop : (name ++ .ofChar ']' :: r).dropWhile isSectionName = .ofChar ']' :: r := by
    rw [List.dropWhile_append_of_pos hname, List.dropWhile_cons_of_neg (by simp [hclose])]
  have hliteral : literal (str "]") (.ofChar ']' :: r) = some r := literal_eq_some.mpr rfl
  rw [Header, nextSectionPattern_eq, if_pos hline, hopen, Option.bind_some, htake, if_pos hne, hdrop,
    hliteral, Option.bind_some, hend]
  rfl

/-- **The pattern finds a header** at the start of a line. -/
theorem nextSectionPattern_isSome (before : Option Point) (t : Str) :
    (nextSectionPattern before t).isSome = true ↔ atLineStart before = true ∧ Header t := by
  have hline : atLineStart none = true := rfl
  rw [Header, nextSectionPattern_eq, nextSectionPattern_eq, if_pos hline]
  by_cases hb : atLineStart before = true <;> simp [hb]

/-- With no header in a text, the section ends behind it. -/
theorem searchFrom_of_not_headerIn (h : ¬HeaderIn (atLineStart before) u (c :: t)) :
    searchFrom nextSectionPattern i before (u ++ c :: t) =
      searchFrom nextSectionPattern (i + u.length + 1) (some c) t := by
  induction u generalizing i before with
  | nil =>
    have hmatch : ¬(nextSectionPattern before (c :: t)).isSome = true := fun hm =>
      h ((nextSectionPattern_isSome before _).mp hm)
    rw [List.nil_append, searchFrom, if_neg hmatch]
    rfl
  | cons d u ih =>
    rw [HeaderIn, not_or, List.cons_append, ← nextSectionPattern_isSome] at h
    have hlen : i + (u.length + 1) + 1 = i + 1 + u.length + 1 := by omega
    rw [List.cons_append, searchFrom, if_neg h.1, List.length_cons, hlen]
    exact ih h.2

/-- With a header in a text, the section ends within it. -/
theorem searchFrom_of_headerIn (h : HeaderIn (atLineStart before) u (c :: t)) :
    ∃ a, searchFrom nextSectionPattern i before (u ++ c :: t) = some a ∧ a ≤ i + u.length := by
  induction u generalizing i before with
  | nil =>
    have hmatch := (nextSectionPattern_isSome before (c :: t)).mpr h
    exact ⟨i, by rw [List.nil_append, searchFrom, if_pos hmatch], by omega⟩
  | cons d u ih =>
    rw [HeaderIn, List.cons_append, ← nextSectionPattern_isSome] at h
    rw [List.cons_append, searchFrom, List.length_cons]
    by_cases hmatch : (nextSectionPattern before (d :: (u ++ c :: t))).isSome = true
    · rw [if_pos hmatch]
      exact ⟨i, rfl, by omega⟩
    · rw [if_neg hmatch]
      obtain ⟨a, ha, hle⟩ := @ih (i + 1) (some d) (h.resolve_left hmatch)
      exact ⟨a, ha, by omega⟩

/-- **Where the section of a tuple ends**, when no header starts in the tuple. -/
theorem tupleEnd_of_not_headerIn (h : ¬HeaderIn false u (.ofChar ')' :: S)) :
    tupleEnd P (u ++ .ofChar ')' :: S) = P.length + u.length + 1 + suffixEnd S := by
  have hsearch := @searchFrom_of_not_headerIn P.length opening _ _ _ h
  have hshift : searchFrom nextSectionPattern (0 + (P.length + u.length + 1)) closing S =
      (searchFrom nextSectionPattern 0 closing S).map (· + (P.length + u.length + 1)) :=
    searchFrom_shift _
  rw [Nat.zero_add] at hshift
  rw [tupleEnd, suffixEnd, hsearch, hshift, List.length_append, List.length_cons]
  cases searchFrom nextSectionPattern 0 closing S with
  | none =>
    simp only [Option.map_none, Option.getD_none]
    omega
  | some a =>
    simp only [Option.map_some, Option.getD_some]
    omega

/-- **The tuple ends before its section** exactly if no header starts in it. -/
theorem lt_tupleEnd_iff :
    P.length + u.length < tupleEnd P (u ++ .ofChar ')' :: S) ↔
      ¬HeaderIn false u (.ofChar ')' :: S) := by
  constructor
  · intro hlt h
    obtain ⟨a, ha, hle⟩ := @searchFrom_of_headerIn P.length opening _ _ _ h
    rw [tupleEnd, ha, Option.getD_some] at hlt
    omega
  · intro h
    rw [tupleEnd_of_not_headerIn h]
    omega

/-- Without a header in it, a tuple belongs to the section whole. -/
theorem take_tupleEnd (h : ¬HeaderIn false u (.ofChar ')' :: S)) :
    (u ++ .ofChar ')' :: S).take (tupleEnd P (u ++ .ofChar ')' :: S) - P.length) =
      u ++ .ofChar ')' :: S.take (suffixEnd S) := by
  have hlen : P.length + u.length + 1 + suffixEnd S - P.length = u.length + (suffixEnd S + 1) := by
    omega
  rw [tupleEnd_of_not_headerIn h, hlen, List.take_length_add_append, List.take_succ_cons]

/-- What the options of a file are found by. -/
theorem options_eq_nil_iff : finditer optionPattern i 0 opening t = [] ↔
    ∀ L, IsOptionLine L → ¬(newline :: L) <:+: t := by
  rw [finditer_eq_nil]
  constructor
  · rintro h L hL ⟨a, b, rfl⟩
    have hline : atLineStart (lastBefore opening (a ++ [newline])) = true := by
      rw [lastBefore_append]
      rfl
    have hne : L ++ b ≠ [] := by
      obtain ⟨x, rfl⟩ := hL.exists_append
      simp
    have hnone := h (a ++ [newline]) (L ++ b) (by simp) hne
    rw [hL.optionPattern hline] at hnone
    cases hnone
  · intro h w v hwv _
    cases hm : optionPattern (lastBefore opening w) v with
    | none => rfl
    | some rest =>
      obtain ⟨hline, L, hL, rfl⟩ := optionPattern_eq_some hm
      obtain ⟨w', rfl⟩ : ∃ w', w = w' ++ [newline] := by
        rcases List.eq_nil_or_concat w with rfl | ⟨w', d, rfl⟩
        · exact absurd hline (by decide)
        · have hd : d = newline := by
            rw [List.concat_eq_append, lastBefore_append] at hline
            simpa [lastBefore, atLineStart] using hline
          exact ⟨w', by rw [List.concat_eq_append, hd]⟩
      exact absurd ⟨w', rest, by rw [hwv]; simp⟩ (h L hL)

end Places

section Infixes

variable {I a b e raw : Str} {es : List Str} {c : Point} {replacements : List (Str × Str)}

/-- What does not have a character stands on one side of it. -/
theorem infix_of_append_cons (hc : c ∉ I) (h : I <:+: a ++ c :: b) : I <:+: a ∨ I <:+: b := by
  rcases List.infix_append_iff.mp h with h | h | ⟨I₁, I₂, rfl, h₁, h₂⟩
  · exact .inl h
  · rcases List.infix_cons_iff.mp h with h | h
    · rcases List.prefix_cons_iff.mp h with rfl | ⟨t, rfl, -⟩
      · exact .inl List.nil_infix
      · exact absurd List.mem_cons_self hc
    · exact .inr h
  · rcases List.prefix_cons_iff.mp h₂ with rfl | ⟨t, rfl, -⟩
    · rw [List.append_nil]
      exact .inl h₁.isInfix
    · exact absurd (List.mem_append_right _ List.mem_cons_self) hc

/-- The entries stand in what is joined. -/
theorem infix_joinEntries (he : e ∈ es) : e <:+: joinEntries es := by
  induction es with
  | nil => cases he
  | cons e' es ih =>
    by_cases hes : es = []
    · subst hes
      obtain rfl : e = e' := by simpa using he
      exact (joinEntries_singleton e).symm ▸ List.infix_rfl
    · rw [joinEntries_cons e' hes]
      rcases List.mem_cons.mp he with rfl | he
      · exact (List.prefix_append ..).isInfix
      · exact (ih he).trans ((List.suffix_cons ..).trans (List.suffix_append ..)).isInfix

/-- What has no comma stands in one entry. -/
theorem exists_infix_of_joinEntries (hcomma : .ofChar ',' ∉ I) (hI : I ≠ [])
    (h : I <:+: joinEntries es) : ∃ e ∈ es, I <:+: e := by
  induction es with
  | nil => exact absurd (List.infix_nil.mp h) hI
  | cons e es ih =>
    by_cases hes : es = []
    · subst hes
      rw [joinEntries_singleton] at h
      exact ⟨e, List.mem_cons_self, h⟩
    · rw [joinEntries_cons e hes] at h
      rcases infix_of_append_cons hcomma h with h | h
      · exact ⟨e, List.mem_cons_self, h⟩
      · obtain ⟨e', he', h⟩ := ih h
        exact ⟨e', List.mem_cons_of_mem _ he', h⟩

/-- **What ends with an opening parenthesis** stands in front of the value, if it stands in
an entry whose value has none. -/
theorem infix_of_render (hraw : IsEntry raw)
    (hr : ∀ r ∈ replacements, .ofChar '(' ∉ r.2)
    (h : I ++ [.ofChar '('] <:+: (parseEntry raw).render replacements) :
    I ++ [.ofChar '('] <:+: raw := by
  rcases render_cases replacements (parseEntry raw) with ⟨hsame, -⟩ | ⟨f, v, hf, hv, heq⟩
  · rwa [hsame, parseEntry_raw] at h
  · obtain ⟨u, w₁, w₂, hp⟩ := parseEntry_parts hraw hf
    have hopen : .ofChar '(' ∉ .ofChar '=' :: (w₁ ++ v ++ w₂) := by
      have hspace : ¬(Point.ofChar '(').isSpace = true := by decide
      have hequal : Point.ofChar '(' ≠ .ofChar '=' := by decide
      simp only [List.mem_cons, List.mem_append, not_or]
      exact ⟨hequal, ⟨fun hw => hspace (hp.blank_left _ hw), hr _ (mem_of_lookup hv)⟩,
        fun hw => hspace (hp.blank_right _ hw)⟩
    have hu : u <:+: raw := by
      rcases hp.value with ⟨-, -, hraw⟩ | ⟨-, hraw⟩ <;>
        · rw [hraw]
          exact (List.prefix_append ..).isInfix
    rw [heq, hp.replaceValue] at h
    rcases List.infix_append_iff.mp h with h | h | ⟨I₁, I₂, hI, h₁, h₂⟩
    · exact h.trans hu
    · exact absurd (h.subset (by simp)) hopen
    · rcases List.eq_nil_or_concat I₂ with rfl | ⟨I₃, d, rfl⟩
      · rw [hI, List.append_nil]
        exact h₁.isInfix.trans hu
      · obtain rfl : Point.ofChar '(' = d := by
          have hlast := congrArg List.getLast? hI
          simpa using hlast
        exact absurd (h₂.subset (by simp)) hopen

end Infixes

section Accepted

variable {content : Str} {parsed : ParsedIni} {replacements : List (Str × Str)}

/-- A closing parenthesis starts no header. -/
theorem not_header_closing (S : Str) : ¬Header (.ofChar ')' :: S) := by
  have hspace : ¬(Point.ofChar ')').isSpace = true := by decide
  have hopen : Point.ofChar ')' ≠ .ofChar '[' := by decide
  rw [header_cons, if_neg hspace]
  exact fun h => hopen h.1

/-- Past some text, what stands before it does not matter. -/
theorem lastBefore_of_ne_nil {w : Str} (hw : w ≠ []) (before before' : Option Point) :
    lastBefore before w = lastBefore before' w := by
  obtain ⟨c, u, rfl⟩ := List.exists_cons_of_ne_nil hw
  rw [lastBefore_cons, lastBefore_cons]

/-- What an option line has is white space and the letters of the option. -/
theorem IsOptionLine.notMem {L : Str} (h : IsOptionLine L) {c : Point} (hc : isTab c = false)
    (hword : c ∉ str "OptionSettings=(") : c ∉ L := by
  obtain ⟨b₁, b₂, b₃, h₁, h₂, h₃, rfl⟩ := h.parts
  have hsplit : str "OptionSettings=(" = str "OptionSettings" ++ (str "=" ++ str "(") := by
    decide
  rw [hsplit, List.mem_append, List.mem_append, not_or, not_or] at hword
  have htab {b : Str} (hb : ∀ d ∈ b, isTab d = true) : c ∉ b := fun hcb => by
    rw [hb c hcb] at hc
    cases hc
  simp only [List.mem_append, not_or]
  exact ⟨htab h₁, hword.1, htab h₂, hword.2.1, htab h₃, hword.2.2⟩

/-- **An edited file is accepted** exactly if no header starts in its tuple, when the new
values have no opening parenthesis. -/
theorem exists_parseIni_render_iff (h : parseIni content = .ok parsed)
    (hr : ∀ r ∈ replacements, IsValue r.2 ∧ .ofChar '(' ∉ r.2) :
    (∃ parsed', parseIni (parsed.render replacements) = .ok parsed') ↔
      ¬HeaderIn false (joinEntries (parsed.entries.map (IniEntry.render replacements)))
        parsed.suffix := by
  obtain ⟨n, T, hhead, -, htuple⟩ := exists_iniHead h
  obtain ⟨es, S, rfl, hes, hnil, hparsed, hsections, hoptions, hend⟩ := parseTuple_eq_ok htuple
  have hentries : parsed.entries = es.map parseEntry := by rw [hparsed]
  have hsuffix : parsed.suffix = .ofChar ')' :: S := by rw [hparsed]
  have hvalues : ∀ r ∈ replacements, IsValue r.2 := fun r hmem => (hr r hmem).1
  have hes' := isEntry_editedEntries hes hvalues
  have hnil' : editedEntries replacements es = [] ↔
      joinEntries (editedEntries replacements es) = [] := editedEntries_eq_nil hes hnil
  have hedited : parsed.entries.map (IniEntry.render replacements) =
      editedEntries replacements es := by
    rw [hentries, List.map_map]
    rfl
  rw [render_eq_append hentries, hsuffix, parseIni_append hhead, hedited]
  generalize hJ : joinEntries (editedEntries replacements es) = J
  rw [← lt_tupleEnd_iff (P := parsed.head)]
  constructor
  · rintro ⟨parsed', h'⟩
    obtain ⟨es₁, S₁, hT, hes₁, -, -, -, -, hend₁⟩ := parseTuple_eq_ok h'
    have hclose := findClosing_joinEntries hes' S
    rw [hJ, hT, findClosing_joinEntries hes₁] at hclose
    rwa [Option.some.inj hclose] at hend₁
  · intro hlt
    have hclear := lt_tupleEnd_iff.mp hlt
    have hclear₀ := lt_tupleEnd_iff.mp hend
    refine ⟨_, parseTuple_joinEntries hes' hnil' (by rw [hJ]) ?_ ?_ (by rwa [hJ])⟩
    · rw [finditer_eq_nil] at hsections ⊢
      intro w v hwv hv
      by_contra hmatch
      have hsome := Option.isSome_iff_ne_none.mpr hmatch
      have hline := sectionPattern_atLineStart _ _ hsome
      have hheader := header_of_sectionPattern hsome
      rcases List.append_eq_append_iff.mp hwv with ⟨w', rfl, hS⟩ | ⟨v', rfl, rfl⟩
      · by_cases hw' : w' = []
        · subst hw'
          rw [List.nil_append] at hS
          exact not_header_closing S (hS ▸ hheader)
        · have hplace := hsections (joinEntries es ++ w') v (by rw [List.append_assoc, ← hS]) hv
          rw [lastBefore_append, lastBefore_of_ne_nil hw' _ (lastBefore opening J),
            ← lastBefore_append] at hplace
          exact hmatch hplace
      · exact hclear (headerIn_iff.mpr ⟨w, v', rfl, hline, hheader⟩)
    · rw [take_tupleEnd hclear₀, options_eq_nil_iff] at hoptions
      rw [take_tupleEnd hclear, options_eq_nil_iff]
      intro L hL hinfix
      have hclose : .ofChar ')' ∉ newline :: L := by
        rw [List.mem_cons, not_or]
        exact ⟨by decide, hL.notMem (by decide) (by decide)⟩
      have hcomma : .ofChar ',' ∉ newline :: L := by
        rw [List.mem_cons, not_or]
        exact ⟨by decide, hL.notMem (by decide) (by decide)⟩
      refine hoptions L hL ?_
      rcases infix_of_append_cons hclose hinfix with hinfix | hinfix
      · rw [← hJ] at hinfix
        obtain ⟨e, he, hinfix⟩ := exists_infix_of_joinEntries hcomma (by simp) hinfix
        obtain ⟨raw, hraw, rfl⟩ := List.mem_map.mp he
        obtain ⟨x, rfl⟩ := hL.exists_append
        have hraw' := infix_of_render (I := newline :: x) (hes raw hraw)
          (fun r hmem => (hr r hmem).2) hinfix
        exact (hraw'.trans (infix_joinEntries hraw)).trans (List.prefix_append ..).isInfix
      · exact hinfix.trans ((List.suffix_cons ..).trans (List.suffix_append ..)).isInfix

end Accepted

end PalworldManager
