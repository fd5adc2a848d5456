/-
# What a scan of the option tuple goes by

The three scanners of `ini.py` keep the same two flags and the same depth.  `nest` is
that state after a text which no scanner leaves in the middle: it closes no parenthesis
that it did not open, and has no comma between its parts.  An *entry* is a text that
leaves the scan as it found it.  Entries joined by commas are what the splitter takes
apart, and what the closing parenthesis is found behind; so the three agree
(`scanners_agree`).
-/

import PalworldManager.Outcomes
import PalworldManager.PalworldSettings.Ini

namespace PalworldManager

open Text

/-- The state of a scan after a text within one entry. -/
def nest : ℤ → Quoting → Str → Option (ℤ × Quoting)
  | depth, q, [] => some (depth, q)
  | depth, q, c :: t =>
      if q = .outside ∧ (c = .ofChar ')' ∨ c = .ofChar ',') ∧ depth = 0 then none
      else nest (q.depth c depth) (q.next c) t

/-- A text that an entry may be. -/
def IsEntry (raw : Str) : Prop := nest 0 .outside raw = some (0, .outside)

/-- A text that leaves a scan as it is, at whatever depth it stands. -/
def IsInert (t : Str) : Prop := ∀ depth, nest depth .outside t = some (depth, .outside)

section Nest

variable {depth depth' : ℤ} {q q' : Quoting} {t u : Str}

/-- Two texts are scanned one after the other. -/
theorem nest_append (depth : ℤ) (q : Quoting) (t u : Str) :
    nest depth q (t ++ u) = (nest depth q t).bind fun r => nest r.1 r.2 u := by
  induction t generalizing depth q with
  | nil => rfl
  | cons c t ih =>
    rw [List.cons_append, nest, nest]
    split_ifs with h
    · rfl
    · exact ih _ _

/-- The depth after a character that closes nothing which was not opened. -/
theorem depth_nonneg {c : Point} (h : 0 ≤ depth)
    (hc : ¬(q = .outside ∧ (c = .ofChar ')' ∨ c = .ofChar ',') ∧ depth = 0)) :
    0 ≤ q.depth c depth := by
  rw [Quoting.depth]
  split_ifs with hq hopen hclose
  · omega
  · have hne : depth ≠ 0 := fun h0 => hc ⟨hq, .inl hclose, h0⟩
    omega
  · exact h
  · exact h

/-- Two inert texts are inert. -/
theorem IsInert.append (h : IsInert t) (h' : IsInert u) : IsInert (t ++ u) := by
  intro depth
  rw [nest_append, h depth]
  exact h' depth

end Nest

section Closing

variable {depth depth' : ℤ} {q q' : Quoting} {t : Str}

/-- One level further in, a parenthesis that an entry closes is not the last one. -/
theorem findClosing_append (h : 0 ≤ depth) (hn : nest depth q t = some (depth', q')) (u : Str) :
    findClosingParenthesis (depth + 1) q (t ++ u) =
      (findClosingParenthesis (depth' + 1) q' u).map (· + t.length) := by
  induction t generalizing depth q with
  | nil =>
    obtain ⟨rfl, rfl⟩ : depth = depth' ∧ q = q' := by simpa [nest] using hn
    simp
  | cons c t ih =>
    rw [nest] at hn
    split_ifs at hn with hc
    have hstep : q.depth c (depth + 1) = q.depth c depth + 1 := by
      simp only [Quoting.depth]
      split_ifs <;> omega
    have hnonneg := depth_nonneg h hc
    rw [List.cons_append, findClosingParenthesis, hstep, if_neg (by omega), if_neg (by omega),
      ih hnonneg hn, Option.map_map]
    rfl

/-- Entries are joined with a comma. -/
theorem joinEntries_cons (e : Str) {es : List Str} (h : es ≠ []) :
    joinEntries (e :: es) = e ++ .ofChar ',' :: joinEntries es := by
  obtain ⟨e', es, rfl⟩ := List.exists_cons_of_ne_nil h
  simp [joinEntries]

/-- One entry is joined as it is. -/
@[simp]
theorem joinEntries_singleton (e : Str) : joinEntries [e] = e := by simp [joinEntries]

/-- **The closing parenthesis of joined entries** is the one behind them. -/
theorem findClosing_joinEntries {es : List Str} (h : ∀ e ∈ es, IsEntry e) (u : Str) :
    findClosingParenthesis 1 .outside (joinEntries es ++ .ofChar ')' :: u) =
      some (joinEntries es).length := by
  induction es with
  | nil => rfl
  | cons e es ih =>
    have he := findClosing_append (Int.le_refl 0) (h e List.mem_cons_self)
    rw [Int.zero_add] at he
    by_cases hes : es = []
    · subst hes
      have hclose : findClosingParenthesis 1 .outside (.ofChar ')' :: u) = some 0 := rfl
      rw [joinEntries_singleton, he, hclose, Option.map_some, Nat.zero_add]
    · have hcomma (t : Str) : findClosingParenthesis 1 .outside (.ofChar ',' :: t) =
          (findClosingParenthesis 1 .outside t).map (· + 1) := rfl
      rw [joinEntries_cons e hes, List.append_assoc, he, List.cons_append, hcomma,
        ih fun e' he' => h e' (List.mem_cons_of_mem _ he')]
      simp only [Option.map_some, List.length_append, List.length_cons]
      congr 1
      omega

end Closing

section Split

variable {depth depth' : ℤ} {q q' : Quoting} {t : Str}

/-- What stands before the end of an entry goes to the entry. -/
theorem splitFrom_append (hn : nest depth q t = some (depth', q')) (u : Str) :
    splitFrom depth q (t ++ u) = (splitFrom depth' q' u).map (t.foldr consEntry) := by
  induction t generalizing depth q with
  | nil =>
    obtain ⟨rfl, rfl⟩ : depth = depth' ∧ q = q' := by simpa [nest] using hn
    rw [List.nil_append]
    cases splitFrom depth q u <;> rfl
  | cons c t ih =>
    rw [nest] at hn
    split_ifs at hn with hc
    rw [List.cons_append, splitFrom, if_neg fun h => hc ⟨h.1, .inl h.2.1, h.2.2⟩,
      if_neg fun h => hc ⟨h.1, .inr h.2.1, h.2.2⟩, ih hn]
    cases splitFrom depth' q' u <;> rfl

/-- A text put before some entries goes into the first. -/
theorem foldr_consEntry (t e : Str) (es : List Str) :
    t.foldr consEntry (e :: es) = (t ++ e) :: es := by
  induction t with
  | nil => rfl
  | cons c t ih => rw [List.foldr_cons, ih, consEntry, List.cons_append]

/-- **Joined entries are taken apart.** -/
theorem splitFrom_joinEntries {es : List Str} (hes : es ≠ []) (h : ∀ e ∈ es, IsEntry e) :
    splitFrom 0 .outside (joinEntries es) = .ok es := by
  induction es with
  | nil => exact absurd rfl hes
  | cons e es ih =>
    have he := h e List.mem_cons_self
    by_cases hnil : es = []
    · subst hnil
      have hsplit := splitFrom_append he []
      rw [List.append_nil] at hsplit
      rw [joinEntries_singleton, hsplit, splitFrom, if_neg (by simp), Except.map,
        foldr_consEntry, List.append_nil]
    · have hcomma (t : Str) : splitFrom 0 .outside (.ofChar ',' :: t) =
          (splitFrom 0 .outside t).map ([] :: ·) := rfl
      rw [joinEntries_cons e hnil, splitFrom_append he, hcomma,
        ih hnil fun e' he' => h e' (List.mem_cons_of_mem _ he'), Except.map, Except.map,
        foldr_consEntry, List.append_nil]

/-- What the splitter takes apart are entries, and they join to what it was given. -/
theorem splitFrom_eq_ok {es : List Str} (h : splitFrom depth q t = .ok es) :
    ∃ e es', es = e :: es' ∧ nest depth q e = some (0, .outside) ∧ (∀ e' ∈ es', IsEntry e') ∧
      t = joinEntries es := by
  induction t generalizing depth q es with
  | nil =>
    rw [splitFrom] at h
    split_ifs at h with hend
    obtain ⟨rfl, rfl⟩ : q = .outside ∧ depth = 0 := by simpa using hend
    obtain rfl : [[]] = es := by simpa using h
    exact ⟨[], [], rfl, rfl, by simp, rfl⟩
  | cons c t ih =>
    rw [splitFrom] at h
    split_ifs at h with hclose hcomma
    · obtain ⟨rfl, rfl, rfl⟩ := hcomma
      obtain ⟨es₁, hes, rfl⟩ := except_map_eq_ok.mp h
      obtain ⟨e, es', rfl, he, hes', rfl⟩ := ih hes
      refine ⟨[], e :: es', rfl, rfl, ?_, ?_⟩
      · intro e' he'
        rcases List.mem_cons.mp he' with rfl | he'
        · exact he
        · exact hes' e' he'
      · rw [joinEntries_cons [] (by simp), List.nil_append]
    · obtain ⟨es₁, hes, rfl⟩ := except_map_eq_ok.mp h
      obtain ⟨e, es', rfl, he, hes', rfl⟩ := ih hes
      refine ⟨c :: e, es', rfl, ?_, hes', ?_⟩
      · rw [nest, if_neg]
        · exact he
        · rintro ⟨hq, hc | hc, hd⟩
          · exact hclose ⟨hq, hc, hd⟩
          · exact hcomma ⟨hq, hc, hd⟩
      · by_cases hnil : es' = []
        · subst hnil
          rw [consEntry, joinEntries_singleton, joinEntries_singleton]
        · rw [consEntry, joinEntries_cons _ hnil, joinEntries_cons _ hnil, List.cons_append]

/-- What `_split_entries` returns joins to what it was given. -/
theorem splitEntries_eq_ok {inner : Str} {es : List Str} (h : splitEntries inner = .ok es) :
    inner = joinEntries es ∧ (∀ e ∈ es, IsEntry e) ∧ (es = [] ↔ inner = []) := by
  rw [splitEntries] at h
  split_ifs at h with hinner
  · obtain rfl : [] = es := by simpa using h
    exact ⟨hinner, by simp, by simp [hinner]⟩
  · obtain ⟨e, es', rfl, he, hes', hjoin⟩ := splitFrom_eq_ok h
    refine ⟨hjoin, ?_, by simp [hinner]⟩
    intro e' he'
    rcases List.mem_cons.mp he' with rfl | he'
    · exact he
    · exact hes' e' he'

/-- Entries that join to some text are what `_split_entries` returns of it. -/
theorem splitEntries_joinEntries {es : List Str} (h : ∀ e ∈ es, IsEntry e)
    (hes : es = [] ↔ joinEntries es = []) : splitEntries (joinEntries es) = .ok es := by
  rw [splitEntries]
  split_ifs with hnil
  · rw [hes.mpr hnil]
  · exact splitFrom_joinEntries (fun h => hnil (hes.mp h)) h

end Split

section Equal

variable {depth depth' : ℤ} {q q' : Quoting} {t : Str} {i : ℕ}

/-- The equal sign that is found stands at depth zero, and is found whatever follows it. -/
theorem topLevelEqual_eq_some (h : topLevelEqual depth q t = some i) :
    ∃ u v, t = u ++ .ofChar '=' :: v ∧ u.length = i ∧
      (∀ v', topLevelEqual depth q (u ++ .ofChar '=' :: v') = some i) ∧
      ∀ r, nest depth q t = some r → nest depth q u = some (0, .outside) := by
  induction t generalizing depth q i with
  | nil => cases h
  | cons c t ih =>
    rw [topLevelEqual] at h
    split_ifs at h with hequal
    · obtain ⟨rfl, rfl, rfl⟩ := hequal
      obtain rfl : 0 = i := by simpa using h
      exact ⟨[], t, rfl, rfl, fun v' => by simp [topLevelEqual], fun _ _ => rfl⟩
    · obtain ⟨n, hn, rfl⟩ := Option.map_eq_some_iff.mp h
      obtain ⟨u, v, rfl, rfl, hfound, hnest⟩ := ih hn
      refine ⟨c :: u, v, rfl, rfl, fun v' => ?_, fun r hr => ?_⟩
      · rw [List.cons_append, topLevelEqual, if_neg hequal, hfound v']
        rfl
      · rw [nest] at hr ⊢
        split_ifs at hr with hc
        rw [if_neg hc]
        exact hnest r hr

end Equal

section Agreement

variable {depth : ℤ} {q : Quoting} {t : Str} {n : ℕ}

/-- The depth and the flags after a character. -/
def scanStep (state : ℤ × Quoting) (c : Point) : ℤ × Quoting :=
  (state.2.depth c state.1, state.2.next c)

/-- The depth and the flags after a text, counted from its start. -/
def scanned (t : Str) : ℤ × Quoting := t.foldl scanStep (0, .outside)

/-- A balanced text: no quote is left open, and the depth returns to zero and is never
negative. -/
structure IsBalanced (t : Str) : Prop where
  closed : scanned t = (0, .outside)
  nonneg : ∀ i, 0 ≤ (scanned (t.take i)).1

/-- An equal sign outside quotes and parentheses. -/
def IsOuterEqual (t : Str) (i : ℕ) : Prop :=
  t[i]? = some (.ofChar '=') ∧ (scanned (t.take i)).2 = .outside ∧ (scanned (t.take i)).1 ≤ 0

/-- A text within one entry, and each part that it starts with, is scanned with no
negative depth. -/
theorem scan_of_nest {r : ℤ × Quoting} (h : 0 ≤ depth) (hn : nest depth q t = some r) :
    t.foldl scanStep (depth, q) = r ∧ ∀ i, 0 ≤ ((t.take i).foldl scanStep (depth, q)).1 := by
  induction t generalizing depth q with
  | nil =>
    obtain rfl : (depth, q) = r := by simpa [nest] using hn
    exact ⟨rfl, fun i => by simpa using h⟩
  | cons c t ih =>
    rw [nest] at hn
    split_ifs at hn with hc
    obtain ⟨hend, hpre⟩ := ih (depth_nonneg h hc) hn
    refine ⟨hend, fun i => ?_⟩
    cases i with
    | zero => exact h
    | succ i => exact hpre i

/-- An entry is balanced. -/
theorem IsEntry.isBalanced (h : IsEntry t) : IsBalanced t := by
  obtain ⟨hclosed, hnonneg⟩ := scan_of_nest (Int.le_refl 0) h
  exact ⟨hclosed, hnonneg⟩

/-- What `_top_level_equal` looks for at a place of a text: an equal sign, found by a scan
that is outside quotes and at depth zero. -/
def stopsAt (depth : ℤ) (q : Quoting) (t : Str) (i : ℕ) : Prop :=
  t[i]? = some (.ofChar '=') ∧ (t.take i).foldl scanStep (depth, q) = (0, .outside)

/-- `_top_level_equal` finds the first place it looks for. -/
theorem topLevelEqual_eq_some_iff {i : ℕ} :
    topLevelEqual depth q t = some i ↔ stopsAt depth q t i ∧ ∀ k < i, ¬stopsAt depth q t k := by
  induction t generalizing depth q i with
  | nil => simp [topLevelEqual, stopsAt]
  | cons c t ih =>
    have hzero : stopsAt depth q (c :: t) 0 ↔ q = .outside ∧ c = .ofChar '=' ∧ depth = 0 := by
      constructor
      · rintro ⟨hc, hstate⟩
        obtain ⟨rfl, rfl⟩ : depth = 0 ∧ q = .outside := by simpa using hstate
        exact ⟨rfl, by simpa using hc, rfl⟩
      · rintro ⟨rfl, rfl, rfl⟩
        exact ⟨rfl, rfl⟩
    have hsucc (k : ℕ) : stopsAt depth q (c :: t) (k + 1) ↔
        stopsAt (q.depth c depth) (q.next c) t k := Iff.rfl
    rw [topLevelEqual]
    split_ifs with hequal
    · constructor
      · intro h
        obtain rfl : 0 = i := by simpa using h
        exact ⟨hzero.mpr hequal, fun k hk => absurd hk (Nat.not_lt_zero k)⟩
      · rintro ⟨-, hfirst⟩
        cases i with
        | zero => rfl
        | succ i => exact absurd (hzero.mpr hequal) (hfirst 0 (Nat.succ_pos i))
    · rw [Option.map_eq_some_iff]
      constructor
      · rintro ⟨n, hn, rfl⟩
        obtain ⟨hstop, hfirst⟩ := ih.mp hn
        refine ⟨hstop, fun k hk => ?_⟩
        cases k with
        | zero => exact fun h => hequal (hzero.mp h)
        | succ k => exact fun h => hfirst k (by omega) ((hsucc k).mp h)
      · rintro ⟨hstop, hfirst⟩
        cases i with
        | zero => exact absurd (hzero.mp hstop) hequal
        | succ i =>
          exact ⟨i, ih.mpr ⟨hstop, fun k hk h => hfirst (k + 1) (by omega) h⟩, rfl⟩

/-- In a balanced text the scan looks for an equal sign outside quotes and parentheses. -/
theorem IsBalanced.stopsAt_iff (h : IsBalanced t) (i : ℕ) :
    stopsAt 0 .outside t i ↔ IsOuterEqual t i := by
  have hnonneg : 0 ≤ (scanned (t.take i)).1 := h.nonneg i
  constructor
  · rintro ⟨hc, hstate⟩
    have hs : scanned (t.take i) = (0, .outside) := hstate
    exact ⟨hc, by rw [hs], by simp [hs]⟩
  · rintro ⟨hc, hq, hdepth⟩
    exact ⟨hc, Prod.ext (show (scanned (t.take i)).1 = 0 by omega) hq⟩

/-- What the closing parenthesis is found behind is taken apart, one level further out. -/
theorem exists_splitFrom (h : 0 ≤ depth) (hc : findClosingParenthesis (depth + 1) q t = some n) :
    ∃ es, splitFrom depth q (t.take n) = .ok es := by
  induction t generalizing depth q n with
  | nil => cases hc
  | cons c t ih =>
    rw [findClosingParenthesis] at hc
    have hstep : q.depth c (depth + 1) = q.depth c depth + 1 := by
      simp only [Quoting.depth]
      split_ifs <;> omega
    simp only [hstep] at hc
    split_ifs at hc with hlast hneg
    · obtain rfl : 0 = n := by simpa using hc
      obtain ⟨rfl, rfl, hdepth⟩ := hlast
      obtain rfl : depth = 0 := by
        rw [Quoting.depth, if_pos rfl, if_neg (by decide), if_pos rfl] at hdepth
        omega
      exact ⟨[[]], rfl⟩
    · obtain ⟨n, hn, rfl⟩ := Option.map_eq_some_iff.mp hc
      have hclose : ¬(q = .outside ∧ c = .ofChar ')' ∧ depth = 0) := by
        rintro ⟨rfl, rfl, rfl⟩
        exact hlast ⟨rfl, rfl, rfl⟩
      rw [List.take_succ_cons, splitFrom, if_neg hclose]
      split_ifs with hcomma
      · obtain ⟨rfl, rfl, rfl⟩ := hcomma
        obtain ⟨es, hes⟩ := ih (Int.le_refl 0) hn
        exact ⟨[] :: es, by rw [show splitFrom 0 .outside (t.take n) = .ok es from hes, Except.map]⟩
      · have hnonneg : 0 ≤ q.depth c depth := by
          refine depth_nonneg h ?_
          rintro ⟨hq, hd | hd, h0⟩
          · exact hclose ⟨hq, hd, h0⟩
          · exact hcomma ⟨hq, hd, h0⟩
        obtain ⟨es, hes⟩ := ih hnonneg hn
        exact ⟨consEntry c es, by rw [hes]; rfl⟩

/-- **The scanners agree.**  Where the closing parenthesis of an opening one is found, the
text between the two is taken apart into balanced entries that join to it again, and in each
of them the first equal sign outside quotes and parentheses is found. -/
theorem scanners_agree {content : Str} {openingIndex : ℕ}
    (hopen : content[openingIndex]? = some (.ofChar '('))
    (hclose : findClosingParenthesis 0 .outside (content.drop openingIndex) = some n) :
    ∃ entries,
      splitEntries ((content.take (openingIndex + n)).drop (openingIndex + 1)) = .ok entries ∧
      joinEntries entries = (content.take (openingIndex + n)).drop (openingIndex + 1) ∧
      ∀ raw ∈ entries, IsBalanced raw ∧
        (∀ i, topLevelEqual 0 .outside raw = some i ↔
          IsOuterEqual raw i ∧ ∀ k < i, ¬IsOuterEqual raw k) ∧
        (topLevelEqual 0 .outside raw = none ↔ ∀ i, ¬IsOuterEqual raw i) := by
  obtain ⟨hlt, hget⟩ := List.getElem?_eq_some_iff.mp hopen
  have hdrop : content.drop openingIndex = .ofChar '(' :: content.drop (openingIndex + 1) := by
    rw [List.drop_eq_getElem_cons hlt, hget]
  have hinner : ∃ m, n = m + 1 ∧
      findClosingParenthesis (0 + 1) .outside (content.drop (openingIndex + 1)) = some m := by
    have hfirst : findClosingParenthesis 0 .outside (content.drop openingIndex) =
        (findClosingParenthesis 1 .outside (content.drop (openingIndex + 1))).map (· + 1) := by
      rw [hdrop]
      rfl
    obtain ⟨m, hm, rfl⟩ := Option.map_eq_some_iff.mp (hfirst ▸ hclose)
    exact ⟨m, rfl, hm⟩
  obtain ⟨m, rfl, hm⟩ := hinner
  have htext : (content.take (openingIndex + (m + 1))).drop (openingIndex + 1) =
      (content.drop (openingIndex + 1)).take m := by
    rw [List.drop_take]
    congr 1
    omega
  rw [htext]
  have hsplit : ∃ entries,
      splitEntries ((content.drop (openingIndex + 1)).take m) = .ok entries := by
    rw [splitEntries]
    split_ifs with hnil
    · exact ⟨[], rfl⟩
    · exact exists_splitFrom (Int.le_refl 0) hm
  obtain ⟨entries, hentries⟩ := hsplit
  obtain ⟨hjoin, hall, -⟩ := splitEntries_eq_ok hentries
  refine ⟨entries, hentries, hjoin.symm, fun raw hraw => ?_⟩
  have hbalanced := (hall raw hraw).isBalanced
  have hsome (i : ℕ) : topLevelEqual 0 .outside raw = some i ↔
      IsOuterEqual raw i ∧ ∀ k < i, ¬IsOuterEqual raw k := by
    simp only [topLevelEqual_eq_some_iff, hbalanced.stopsAt_iff]
  refine ⟨hbalanced, hsome, fun hnone i hi => ?_, fun hnone => ?_⟩
  · -- the first of the equal signs would have been found
    classical
    have hex : ∃ i, IsOuterEqual raw i := ⟨i, hi⟩
    rw [(hsome _).mpr ⟨Nat.find_spec hex, fun k => Nat.find_min hex⟩] at hnone
    cases hnone
  · cases hfound : topLevelEqual 0 .outside raw with
    | none => rfl
    | some i => exact absurd ((hsome i).mp hfound).1 (hnone i)

/-- Two entries, the second with a parenthesis in quotes. -/
def nestedOptions : Str := str "x(a=1,b=(2,\")\"))y"

/-- Entries with parentheses in them and in a string. -/
theorem scanners_agree_nested : ∃ entries,
    splitEntries ((nestedOptions.take 15).drop 2) = .ok entries ∧
      joinEntries entries = str "a=1,b=(2,\")\")" ∧
      ∀ raw ∈ entries, IsBalanced raw := by
  obtain ⟨entries, hsplit, hjoin, hall⟩ := @scanners_agree 14 nestedOptions 1 (by decide)
    (by decide)
  exact ⟨entries, hsplit, hjoin.trans (by decide), fun raw hraw => (hall raw hraw).1⟩

end Agreement

end PalworldManager
