/-
# The layout of a file that is accepted

A file that `parse_ini` accepts is a head, entries joined by commas, and a suffix that
starts with the closing parenthesis.  The head has the only section and the only option
of the file (`IniHead`), and what is accepted after it is decided by `parseTuple`, which
reads what follows the opening parenthesis and nothing else.
-/

import PalworldManager.PalworldSettings.Sections

namespace PalworldManager

open Text

/-- A head whose section starts at index `n`. -/
structure IniHead (P : Str) (n : ℕ) : Prop where
  isHead : IsHead P
  isHead_drop : IsHead (P.drop n)
  le : n ≤ P.length
  sections : ∃ a, finditer sectionPattern 0 0 none P = [(a, n)]
  noNext : searchFrom nextSectionPattern n (P.take n).getLast? (P.drop n) = none
  options : ∃ a, finditer optionPattern 0 0 none (P.drop n) = [(a, P.length - n)]

/-- The opening parenthesis, as the character before the tuple. -/
abbrev opening : Option Point := some (.ofChar '(')

/-- Where the section of a head ends. -/
def tupleEnd (P T : Str) : ℕ :=
  (searchFrom nextSectionPattern P.length opening T).getD (P.length + T.length)

/-- What `parse_ini` does with what follows a head. -/
def parseTuple (P T : Str) : Except IniParseError ParsedIni :=
  if finditer sectionPattern P.length 0 opening T ≠ [] then
    .error ⟨"o arquivo deve conter exatamente uma seção /Script/Pal.PalGameWorldSettings"⟩
  else if finditer optionPattern 0 0 opening (T.take (tupleEnd P T - P.length)) ≠ [] then
    .error ⟨"a seção deve conter exatamente um OptionSettings"⟩
  else match findClosingParenthesis 1 .outside T with
    | none => .error ⟨"OptionSettings possui parênteses ou aspas inválidos"⟩
    | some n =>
        if tupleEnd P T ≤ P.length + n then
          .error ⟨"OptionSettings ultrapassa os limites da seção"⟩
        else (splitEntries (T.take n)).map fun entries =>
          ⟨P, entries.map parseEntry, T.drop n⟩

section Parts

variable {m : Pattern} {i : ℕ} {before : Option Point} {t u rest : Str}

/-- What is found is in the text. -/
theorem searchFrom_bounds {a : ℕ} (h : searchFrom m i before t = some a) :
    i ≤ a ∧ a < i + t.length := by
  induction t generalizing i before with
  | nil => cases h
  | cons c t ih =>
    rw [searchFrom] at h
    rw [List.length_cons]
    split_ifs at h
    · obtain rfl : i = a := by simpa using h
      omega
    · obtain ⟨hle, hlt⟩ := ih h
      omega

/-- What is found is a closing parenthesis. -/
theorem findClosing_eq_some {depth : ℤ} {q : Quoting} {n : ℕ}
    (h : findClosingParenthesis depth q t = some n) :
    ∃ u v, t = u ++ .ofChar ')' :: v ∧ u.length = n := by
  induction t generalizing depth q n with
  | nil => cases h
  | cons c t ih =>
    rw [findClosingParenthesis] at h
    split_ifs at h with hclose
    · obtain rfl : 0 = n := by simpa using h
      exact ⟨[], t, by rw [hclose.2.1, List.nil_append], rfl⟩
    · obtain ⟨n', hn, rfl⟩ := Option.map_eq_some_iff.mp h
      obtain ⟨u, v, rfl, rfl⟩ := ih hn
      exact ⟨c :: u, v, rfl, rfl⟩

/-- The header of the section goes to the end of its line. -/
theorem sectionPattern_eq_some (h : sectionPattern before t = some rest) :
    (rest = [] ∨ ∃ v, rest = newline :: v) ∧ ∃ w, t = w ++ rest := by
  have hb := sectionPattern_atLineStart before t (by rw [h]; rfl)
  rw [sectionPattern_eq, if_pos hb] at h
  obtain ⟨r, hr, h⟩ := Option.bind_eq_some_iff.mp h
  obtain ⟨hrest, w, rfl⟩ := spacesToLineEnd_eq_some h
  refine ⟨hrest, t.takeWhile Point.isSpace ++ sectionHeader ++ w, ?_⟩
  rw [List.append_assoc, List.append_assoc, ← literal_eq_some.mp hr,
    List.takeWhile_append_dropWhile]

/-- A head ends with the opening parenthesis. -/
theorem IsHead.exists_append {P : Str} (h : IsHead P) : ∃ u, P = u ++ [.ofChar '('] := by
  obtain ⟨Q, L, rfl, hL⟩ := h.parts
  obtain ⟨u, rfl⟩ := hL.exists_append
  exact ⟨Q ++ newline :: u, by simp⟩

/-- That is its last character. -/
theorem IsHead.lastBefore {P : Str} (h : IsHead P) (before : Option Point) :
    lastBefore before P = opening := by
  obtain ⟨u, rfl⟩ := h.exists_append
  simp [PalworldManager.lastBefore]

end Parts

section Append

variable {P T : Str} {n : ℕ}

/-- The section ends behind the head. -/
theorem length_le_tupleEnd (P T : Str) : P.length ≤ tupleEnd P T := by
  rw [tupleEnd]
  cases h : searchFrom nextSectionPattern P.length opening T with
  | none => exact Nat.le_add_right ..
  | some a => exact (searchFrom_bounds h).1

/-- **After a head** the parser goes by what follows. -/
theorem parseIni_append (h : IniHead P n) (T : Str) : parseIni (P ++ T) = parseTuple P T := by
  obtain ⟨a, hsections⟩ := h.sections
  obtain ⟨o, hoptions⟩ := h.options
  have hle := h.le
  have hsplit := finditer_append (i := 0) (h.isHead.decides_section none) (Nat.zero_le _) T
  rw [hsections, h.isHead.lastBefore, Nat.zero_add] at hsplit
  rw [parseIni, hsplit, parseTuple]
  cases hmore : finditer sectionPattern P.length 0 opening T with
  | cons r rs => simp
  | nil =>
    have hnext : searchFrom nextSectionPattern n ((P ++ T).take n).getLast? ((P ++ T).drop n) =
        searchFrom nextSectionPattern P.length opening T := by
      have hlen : n + (P.drop n).length = P.length := by
        rw [List.length_drop]
        omega
      rw [List.take_append_of_le_length hle, List.drop_append_of_le_length hle,
        searchFrom_append (h.isHead_drop.decides_nextSection _), h.noNext, Option.none_or, hlen,
        h.isHead_drop.lastBefore]
    have hend : ((searchFrom nextSectionPattern P.length opening T).getD (P ++ T).length) =
        tupleEnd P T := by rw [tupleEnd, List.length_append]
    simp only [List.append_nil, hnext, hend, ne_eq, not_true_eq_false, if_false]
    have hP := length_le_tupleEnd P T
    have hcontent : ((P ++ T).take (tupleEnd P T)).drop n =
        P.drop n ++ T.take (tupleEnd P T - P.length) := by
      rw [List.take_append, List.take_of_length_le hP, List.drop_append_of_le_length hle]
    have hopts := finditer_append (i := 0) (h.isHead_drop.decides_option none) (Nat.zero_le _)
      (T.take (tupleEnd P T - P.length))
    rw [hoptions, h.isHead_drop.lastBefore, finditer_shift] at hopts
    rw [parseSection, hcontent, hopts]
    cases hmore' : finditer optionPattern 0 0 opening (T.take (tupleEnd P T - P.length)) with
    | cons r rs => simp
    | nil =>
      obtain ⟨u, hu⟩ := h.isHead.exists_append
      have hlen : n + (P.length - n) - 1 = u.length := by
        rw [hu] at hle ⊢
        simp only [List.length_append, List.length_singleton] at hle ⊢
        omega
      have hu' : u.length + 1 = P.length := by rw [hu]; simp
      have hdrop : (P ++ T).drop u.length = .ofChar '(' :: T := by
        rw [hu, List.append_assoc, List.drop_left]
        rfl
      have hfind : findClosingParenthesis 0 .outside (.ofChar '(' :: T) =
          (findClosingParenthesis 1 .outside T).map (· + 1) := rfl
      simp only [List.map_nil, List.append_nil, hlen, hdrop, hfind, not_true_eq_false, if_false]
      cases findClosingParenthesis 1 .outside T with
      | none => rfl
      | some k =>
        have hclose : u.length + (k + 1) = P.length + k := by omega
        have htake : ((P ++ T).take (P.length + k)).drop P.length = T.take k := by
          rw [List.take_length_add_append, List.drop_left]
        have hsuffix : (P ++ T).drop (P.length + k) = T.drop k := by
          rw [List.drop_length_add_append]
        simp only [Option.map_some, hclose, hu', htake, hsuffix, List.take_left]
        split_ifs
        · rfl
        · cases splitEntries (T.take k) <;> rfl

end Append

section Accepted

variable {content : Str} {parsed : ParsedIni}

/-- The section that is found, and where it starts. -/
theorem parseIni_eq_ok (h : parseIni content = .ok parsed) :
    ∃ a n, finditer sectionPattern 0 0 none content = [(a, n)] ∧
      parseSection content n ((searchFrom nextSectionPattern n (content.take n).getLast?
        (content.drop n)).getD content.length) = .ok parsed := by
  rw [parseIni] at h
  split at h
  · rename_i a n hsections
    exact ⟨a, n, hsections, h⟩
  · cases h

/-- The option that is found, and the parenthesis that closes it. -/
theorem parseSection_eq_ok {n stop : ℕ} (h : parseSection content n stop = .ok parsed) :
    ∃ o b k, finditer optionPattern 0 0 none ((content.take stop).drop n) = [(o, b)] ∧
      findClosingParenthesis 0 .outside (content.drop (n + b - 1)) = some k ∧
      n + b - 1 + k < stop ∧ parsed.head = content.take (n + b - 1 + 1) := by
  rw [parseSection] at h
  split at h
  · rename_i o b hoptions
    simp only at h
    split at h
    · cases h
    · rename_i k hk
      split_ifs at h with hstop
      obtain ⟨entries, -, hparsed⟩ := except_bind_eq_ok.mp h
      obtain rfl : _ = parsed := by simpa [Pure.pure, Except.pure] using hparsed
      exact ⟨o, b, k, hoptions, hk, by omega, rfl⟩
  · cases h

/-- Where a section starts, its header has just ended its line. -/
theorem section_of_finditer {a n : ℕ} (h : finditer sectionPattern 0 0 none content = [(a, n)]) :
    ∃ A R, content = A ++ R ∧ n = A.length ∧ (R = [] ∨ ∃ v, R = newline :: v) := by
  obtain ⟨w, u, R, rfl, -, ha, -, hm, hn⟩ :=
    mem_finditer (by rw [h]; exact List.mem_singleton.mpr rfl)
  obtain ⟨hR, v, rfl⟩ := sectionPattern_eq_some hm
  refine ⟨w ++ v, R, by rw [List.append_assoc], ?_, hR⟩
  simp only [List.length_append] at hn ⊢
  omega

/-- A section ends its line, so an option in it starts one of its own. -/
theorem optionLine_of_finditer {R sc : Str} {o b : ℕ} (hR : R = [] ∨ ∃ v, R = newline :: v)
    (hsc : sc <+: R) (h : finditer optionPattern 0 0 none sc = [(o, b)]) :
    ∃ w L rest, IsOptionLine L ∧ sc = w ++ newline :: L ++ rest ∧
      o = w.length + 1 ∧ b = (w ++ newline :: L).length := by
  obtain ⟨w, u, rest, rfl, hu, ho, -, hm, hb⟩ :=
    mem_finditer (by rw [h]; exact List.mem_singleton.mpr rfl)
  obtain ⟨hline, L, hL, rfl⟩ := optionPattern_eq_some hm
  obtain ⟨x, hx⟩ := hL.exists_append
  rcases List.eq_nil_or_concat w with rfl | ⟨w', c, rfl⟩
  · obtain ⟨v, hv⟩ := hsc
    rcases hR with rfl | ⟨v', rfl⟩
    · simp [hx] at hv
    · have hmem : newline ∈ L := by
        cases L with
        | nil => simp at hx
        | cons d L =>
          obtain ⟨rfl, -⟩ : d = newline ∧ _ := by simpa using hv
          exact List.mem_cons_self
      exact absurd hmem hL.newline_notMem
  · rw [List.concat_eq_append] at hline ho ⊢
    have hc : c = newline := by simpa [lastBefore, atLineStart] using hline
    subst hc
    refine ⟨w', L, rest, hL, by simp, by simpa using ho, ?_⟩
    simp only [List.length_append, List.length_cons, List.length_nil] at hb ho ⊢
    omega

/-- **An accepted file has a head**, and what follows it is read as the tuple. -/
theorem exists_iniHead (h : parseIni content = .ok parsed) :
    ∃ n T, IniHead parsed.head n ∧ content = parsed.head ++ T ∧
      parseTuple parsed.head T = .ok parsed := by
  obtain ⟨a, n, hsections, hsection⟩ := parseIni_eq_ok h
  generalize hstop : (searchFrom nextSectionPattern n (content.take n).getLast?
    (content.drop n)).getD content.length = stop at hsection
  obtain ⟨o, b, k, hoptions, hk, hlt, hhead⟩ := parseSection_eq_ok hsection
  obtain ⟨A, R, rfl, hlen, hR⟩ := section_of_finditer hsections
  subst hlen
  have hcontent : ((A ++ R).take stop).drop A.length = R.take (stop - A.length) := by
    rw [List.take_append, List.take_of_length_le (by omega), List.drop_left]
  rw [hcontent] at hoptions
  obtain ⟨w, L, rest, hL, hR', ho, hb⟩ := optionLine_of_finditer hR (List.take_prefix _ _) hoptions
  obtain ⟨Q, hQ⟩ : ∃ Q, Q = w ++ newline :: L := ⟨_, rfl⟩
  have hQhead : IsHead Q := ⟨w, L, hQ, hL⟩
  have hPhead : IsHead (A ++ Q) := ⟨A ++ w, L, by rw [hQ, List.append_assoc], hL⟩
  rw [← hQ] at hR' hb
  obtain ⟨T, rfl⟩ : ∃ T, R = Q ++ T :=
    ⟨rest ++ R.drop (stop - A.length), by
      rw [← List.append_assoc, ← hR', List.take_append_drop]⟩
  have hlt' : o < Q.length := by
    obtain ⟨x, hx⟩ := hL.exists_append
    simp only [hQ, ho, hx, List.length_append, List.length_cons, List.length_nil]
    omega
  have hP : A.length + b - 1 + 1 = (A ++ Q).length := by
    rw [List.length_append]
    omega
  rw [hP, ← List.append_assoc, List.take_left] at hhead
  rw [hhead]
  have hhead' : IniHead (A ++ Q) A.length :=
    { isHead := hPhead
      isHead_drop := by rwa [List.drop_left]
      le := by simp
      sections := by
        have hsplit := finditer_append (i := 0) (hPhead.decides_section none) (Nat.zero_le _) T
        rw [List.append_assoc, hsections] at hsplit
        rcases List.append_eq_singleton_iff.mp hsplit.symm with ⟨-, hY⟩ | ⟨hX, -⟩
        · obtain ⟨w₁, _, _, _, _, ha₁, _, _, hn₁⟩ :=
            mem_finditer (by rw [hY]; exact List.mem_singleton.mpr rfl)
          rw [List.length_append] at ha₁
          omega
        · exact ⟨a, hX⟩
      noNext := by
        rw [List.take_left, List.drop_left]
        rw [List.take_left, List.drop_left,
          searchFrom_append (hQhead.decides_nextSection _)] at hstop
        cases hnext : searchFrom nextSectionPattern A.length A.getLast? Q with
        | none => rfl
        | some e =>
          rw [hnext, Option.some_or, Option.getD_some] at hstop
          have hbounds := searchFrom_bounds hnext
          obtain ⟨x, hx⟩ := hQhead.exists_append
          omega
      options := by
        rw [List.drop_left, List.length_append, Nat.add_sub_cancel_left]
        have hsplit := finditer_append (i := 0) (hQhead.decides_option none) (Nat.zero_le _) rest
        rw [← hR', hoptions] at hsplit
        rcases List.append_eq_singleton_iff.mp hsplit.symm with ⟨-, hY⟩ | ⟨hX, -⟩
        · obtain ⟨w₁, _, _, _, _, ho₁, _⟩ :=
            mem_finditer (by rw [hY]; exact List.mem_singleton.mpr rfl)
          omega
        · exact ⟨o, by rw [hX, hb]⟩ }
  refine ⟨A.length, T, hhead', by rw [List.append_assoc], ?_⟩
  rw [← parseIni_append hhead', List.append_assoc]
  exact h

end Accepted

end PalworldManager
