/-
# Texts between what is replaced

`pieces` cuts a text where `substitute` replaces: the new text is the pieces with the replacement
between them (`substitute_eq_intercalate`).  `split` is the case of a text that is replaced
wherever it stands (`str.split` beside `str.replace`).

Where replacements come one after another, a later one may take part of what an earlier one put
in: `Touches`.  As long as none does, the pieces are cut further and nothing else happens
(`replace_intercalate`).  The other tool for replacements in a row is a weight that each of them
makes greater (`Rewritten.weight`, beside the relation in `Text.Pattern`): a text that comes out
of them all as it went in had nothing to be replaced.
-/

import Mathlib.Algebra.Order.Monoid.Defs
import PalworldManager.Text.Pattern

namespace Text

namespace Pattern

variable {α : Type}

/-- The pieces of a text between what is replaced; the first number is what is left of a match. -/
def pieces (match? : Place α → Option (ℕ × ℕ)) : ℕ → Option α → List α → List (List α)
  | _, _, [] => [[]]
  | skip + 1, _, c :: t => pieces match? skip (some c) t
  | 0, before, c :: t =>
      match match? (before, c :: t) with
      | none => (pieces match? 0 (some c) t).modifyHead (c :: ·)
      | some (kept, n) => (c :: t).take kept :: pieces match? (n - 1) (some c) t

/-- An occurrence of `v` overlaps the `p` that stands between `a` and `b`. -/
def Touches (v a p b : List α) : Prop :=
  ∃ x y, a ++ p ++ b = x ++ v ++ y ∧ x.length < a.length + p.length ∧
    a.length < x.length + v.length

/-- No occurrence of `v` overlaps a `p` between the pieces. -/
def Untouched (v p : List α) (ps : List (List α)) : Prop :=
  ∀ qs rs, ps = qs ++ rs → qs ≠ [] → rs ≠ [] → ¬Touches v (p.intercalate qs) p (p.intercalate rs)

/-- `str.split` by a text that is not empty. -/
def split [DecidableEq α] (old t : List α) : List (List α) :=
  pieces (found .empty (exact old)) 0 none t

section Pieces

variable {m : Place α → Option (ℕ × ℕ)} {r t u v p q a b : List α} {before before' : Option α}
  {c : α} {ps qs rs : List (List α)} {skip : ℕ}

/-- Where nothing is found, the character goes into the first piece. -/
theorem pieces_of_none (h : m (before, c :: t) = none) :
    pieces m 0 before (c :: t) = (pieces m 0 (some c) t).modifyHead (c :: ·) := by
  rw [pieces, h]

/-- Where something is found, a piece ends. -/
theorem pieces_of_some {kept n : ℕ} (h : m (before, c :: t) = some (kept, n)) :
    pieces m 0 before (c :: t) = (c :: t).take kept :: pieces m (n - 1) (some c) t := by
  rw [pieces, h]

/-- There is always a piece. -/
theorem pieces_ne_nil : pieces m skip before t ≠ [] := by
  induction t generalizing skip before with
  | nil => simp [pieces]
  | cons c t ih =>
    cases skip with
    | succ skip => exact ih
    | zero =>
      cases hm : m (before, c :: t) with
      | none => simpa [pieces_of_none hm] using ih
      | some found => exact pieces_of_some hm ▸ List.cons_ne_nil _ _

/-- **The new text is the pieces with the replacement between them.** -/
theorem substitute_eq_intercalate (r : List α) :
    substitute m r skip before t = r.intercalate (pieces m skip before t) := by
  induction t generalizing skip before with
  | nil => simp [pieces]
  | cons c t ih =>
    cases skip with
    | succ skip => exact ih
    | zero =>
      cases hm : m (before, c :: t) with
      | none =>
        obtain ⟨q, qs, hqs⟩ : ∃ q qs, pieces m 0 (some c) t = q :: qs :=
          List.exists_cons_of_ne_nil pieces_ne_nil
        rw [substitute_of_none hm, pieces_of_none hm, ih, hqs, List.modifyHead_cons,
          List.intercalate_cons_cons_left]
      | some found =>
        rw [pieces_of_some hm, List.intercalate_cons_of_ne_nil pieces_ne_nil, substitute, hm, ← ih]

/-- The first piece starts the text; each of them stands in it. -/
theorem pieces_isInfix : (∀ q ∈ (pieces m skip before t).head?, q <+: t.drop skip) ∧
    ∀ q ∈ pieces m skip before t, q <:+: t := by
  induction t generalizing skip before with
  | nil => simp [pieces]
  | cons c t ih =>
    cases skip with
    | succ skip =>
      obtain ⟨hhead, hall⟩ := @ih (some c) skip
      exact ⟨hhead, fun q hq => (hall q hq).trans (List.suffix_cons c t).isInfix⟩
    | zero =>
      obtain ⟨hhead, hall⟩ := @ih (some c) 0
      cases hm : m (before, c :: t) with
      | none =>
        rw [pieces_of_none hm]
        obtain ⟨q, qs, hqs⟩ : ∃ q qs, pieces m 0 (some c) t = q :: qs :=
          List.exists_cons_of_ne_nil pieces_ne_nil
        rw [hqs] at hhead hall ⊢
        have hq : c :: q <+: c :: t := by simpa using hhead q rfl
        refine ⟨by simpa using hq, fun q' hq' => ?_⟩
        obtain rfl | hq' := List.mem_cons.mp hq'
        · exact hq.isInfix
        · exact (hall q' (List.mem_cons_of_mem q hq')).trans (List.suffix_cons c t).isInfix
      | some found =>
        rw [pieces_of_some hm]
        refine ⟨by simpa using List.take_prefix found.1 (c :: t), fun q hq => ?_⟩
        obtain rfl | hq := List.mem_cons.mp hq
        · exact (List.take_prefix _ _).isInfix
        · exact (ih.2 q hq).trans (List.suffix_cons c t).isInfix

/-- Where nothing is found the text is one piece. -/
theorem pieces_of_quiet (h : Quiet m before t) : pieces m 0 before t = [t] := by
  induction t generalizing before with
  | nil => rfl
  | cons c t ih =>
    have hhere : m (before, c :: t) = none := h [] (c :: t) rfl (List.cons_ne_nil _ _)
    rw [pieces_of_none hhere, ih fun u v huv hv => ?_, List.modifyHead_cons]
    have hlater := h (c :: u) v (by rw [huv, List.cons_append]) hv
    rwa [lastOr_cons] at hlater

/-- Where nothing is found, nothing is replaced. -/
theorem substitute_of_quiet (h : Quiet m before t) (r : List α) : substitute m r 0 before t = t := by
  rw [substitute_eq_intercalate, pieces_of_quiet h, List.intercalate_singleton]

/-- Two lists of pieces are joined around one more mark. -/
theorem intercalate_append (hqs : qs ≠ []) (hrs : rs ≠ []) :
    r.intercalate (qs ++ rs) = r.intercalate qs ++ r ++ r.intercalate rs := by
  induction qs with
  | nil => exact absurd rfl hqs
  | cons q qs ih =>
    cases qs with
    | nil => rw [List.singleton_append, List.intercalate_cons_of_ne_nil hrs, List.intercalate_singleton]
    | cons q' qs =>
      have hne : q' :: qs ++ rs ≠ [] := List.cons_ne_nil _ _
      rw [List.cons_append, List.intercalate_cons_of_ne_nil hne, ih (List.cons_ne_nil _ _),
        List.intercalate_cons_cons]
      simp only [List.append_assoc]

/-- What touches a piece stands in the text around it. -/
theorem Touches.isInfix (h : Touches v a p b) : v <:+: a ++ p ++ b := by
  obtain ⟨x, y, htext, -⟩ := h
  exact ⟨x, y, htext.symm⟩

/-- A text is in one piece, or it is not touched. -/
theorem untouched_singleton (v p q : List α) : Untouched v p [q] := by
  intro qs rs hsplit hqs hrs
  obtain ⟨rfl, -⟩ | ⟨-, rfl⟩ := List.singleton_eq_append_iff.mp hsplit
  · exact absurd rfl hqs
  · exact absurd rfl hrs

/-- More text before or after changes nothing of what is touched. -/
theorem Touches.append (h : Touches v a p b) (u w : List α) : Touches v (u ++ a) p (b ++ w) := by
  obtain ⟨x, y, htext, hx, ha⟩ := h
  refine ⟨u ++ x, y ++ w, ?_, by simp only [List.length_append]; omega,
    by simp only [List.length_append]; omega⟩
  simp only [← List.append_assoc] at htext ⊢
  simp only [List.append_assoc u, htext]

/-- What touches a text has an element of it. -/
theorem Touches.mem (h : Touches v a p b) (hv : v ≠ []) (hp : p ≠ []) : ∃ c ∈ v, c ∈ p := by
  obtain ⟨x, y, htext, hx, ha⟩ := h
  rw [List.append_assoc, List.append_assoc] at htext
  -- the first element of the one that begins later
  obtain ⟨s, rfl, hrest⟩ | ⟨s, rfl, hrest⟩ := List.append_eq_append_iff.mp htext
  · obtain ⟨c, v, rfl⟩ := List.exists_cons_of_ne_nil hv
    refine ⟨c, List.mem_cons_self, ?_⟩
    obtain ⟨s', rfl, -⟩ | ⟨s', rfl, hhead⟩ := List.append_eq_append_iff.mp hrest
    · simp only [List.length_append] at hx
      omega
    · cases s' with
      | nil => simp at hx
      | cons d s' =>
        obtain ⟨rfl, -⟩ := List.cons.inj hhead
        simp
  · obtain ⟨c, p, rfl⟩ := List.exists_cons_of_ne_nil hp
    refine ⟨c, ?_, List.mem_cons_self⟩
    obtain ⟨s', rfl, -⟩ | ⟨s', rfl, hhead⟩ := List.append_eq_append_iff.mp hrest
    · simp only [List.length_append] at ha
      omega
    · cases s' with
      | nil => simp at ha
      | cons d s' =>
        obtain ⟨rfl, -⟩ := List.cons.inj hhead
        simp

/-- **A text that stands in the new text stands in a piece or touches a replacement.** -/
theorem infix_intercalate (h : v <:+: p.intercalate ps) (hps : ps ≠ []) :
    (∃ q ∈ ps, v <:+: q) ∨
      ∃ qs rs, ps = qs ++ rs ∧ qs ≠ [] ∧ rs ≠ [] ∧
        Touches v (p.intercalate qs) p (p.intercalate rs) := by
  induction ps with
  | nil => exact absurd rfl hps
  | cons q ps ih =>
    by_cases hne : ps = []
    · subst hne
      exact .inl ⟨q, List.mem_cons_self, by simpa using h⟩
    · rw [List.intercalate_cons_of_ne_nil hne] at h
      obtain ⟨x, y, hxy⟩ := h
      have hlength := congrArg List.length hxy
      simp only [List.length_append] at hlength
      by_cases hleft : x.length + v.length ≤ q.length
      · have hprefix : x ++ v <+: q := by
          have hq : q <+: q ++ p ++ p.intercalate ps := ⟨p ++ p.intercalate ps, by simp⟩
          exact List.prefix_of_prefix_length_le ⟨y, hxy⟩ hq (by simpa using hleft)
        exact .inl ⟨q, List.mem_cons_self, (List.suffix_append x v).isInfix.trans hprefix.isInfix⟩
      · by_cases hright : q.length + p.length ≤ x.length
        · have hsuffix : v ++ y <:+ p.intercalate ps := by
            have hvy : v ++ y <:+ q ++ p ++ p.intercalate ps := ⟨x, by simpa using hxy⟩
            refine List.suffix_of_suffix_length_le hvy (List.suffix_append _ _) ?_
            simp only [List.length_append]
            omega
          obtain ⟨q', hq', hin⟩ | ⟨qs, rs, rfl, hqs, hrs, htouches⟩ :=
            ih ((List.prefix_append v y).isInfix.trans hsuffix.isInfix) hne
          · exact .inl ⟨q', List.mem_cons_of_mem q hq', hin⟩
          · refine .inr ⟨q :: qs, rs, rfl, List.cons_ne_nil _ _, hrs, ?_⟩
            rw [List.intercalate_cons_of_ne_nil hqs]
            simpa using htouches.append (q ++ p) []
        · refine .inr ⟨[q], ps, rfl, List.cons_ne_nil _ _, hne, x, y, ?_, ?_, ?_⟩
          · rw [List.intercalate_singleton, hxy]
          · rw [List.intercalate_singleton]
            omega
          · rw [List.intercalate_singleton]
            omega

/-- What touches nothing between the pieces touches nothing between the later ones. -/
theorem Untouched.tail (h : Untouched v p (q :: ps)) : Untouched v p ps := by
  rintro qs rs rfl hqs hrs htouches
  refine h (q :: qs) rs rfl (List.cons_ne_nil _ _) hrs ?_
  rw [List.intercalate_cons_of_ne_nil hqs]
  simpa using htouches.append (q ++ p) []

end Pieces

section Split

variable [DecidableEq α] {old new v p a b t : List α} {q : List α} {ps : List (List α)}
  {before : Option α} {c : α}

/-- **`replace` puts the new text between the pieces.** -/
theorem replace_eq_intercalate (old new t : List α) :
    replace old new t = new.intercalate (split old t) := substitute_eq_intercalate new

/-- A text has a piece. -/
theorem split_ne_nil (old t : List α) : split old t ≠ [] := pieces_ne_nil

/-- The pieces stand in the text. -/
theorem infix_of_mem_split (h : q ∈ split old t) : q <:+: t := pieces_isInfix.2 q h

/-- What is split further has a piece. -/
theorem flatMap_split_ne_nil (hps : ps ≠ []) : ps.flatMap (split old) ≠ [] := by
  obtain ⟨q, ps, rfl⟩ := List.exists_cons_of_ne_nil hps
  rw [List.flatMap_cons]
  exact List.append_ne_nil_of_left_ne_nil (split_ne_nil old q) _

/-- The text that is cut out is in no piece. -/
theorem not_infix_of_mem_split (hold : old ≠ []) (h : q ∈ split old t) : ¬old <:+: q := by
  rw [split] at h
  generalize hskip : 0 = skip at h
  generalize (none : Option α) = before at h
  clear hskip
  induction t generalizing skip before q with
  | nil =>
    rw [pieces, List.mem_singleton] at h
    rw [h, List.infix_nil]
    exact hold
  | cons c t ih =>
    cases skip with
    | succ skip => exact ih _ _ h
    | zero =>
      by_cases hpre : old <+: c :: t
      · rw [pieces_of_some (found_exact_of_isPrefix hpre), List.take_zero] at h
        obtain rfl | h := List.mem_cons.mp h
        · rw [List.infix_nil]
          exact hold
        · exact ih _ _ h
      · rw [pieces_of_none (found_exact_eq_none.mpr hpre)] at h
        obtain ⟨q', qs, hqs⟩ : ∃ q' qs, pieces (found .empty (exact old)) 0 (some c) t = q' :: qs :=
          List.exists_cons_of_ne_nil pieces_ne_nil
        have hhead : ∀ p ∈ (pieces (found .empty (exact old)) 0 (some c) t).head?, p <+: t.drop 0 :=
          pieces_isInfix.1
        have hmem (p : List α) (hp : p ∈ q' :: qs) : ¬old <:+: p := ih _ _ (hqs ▸ hp)
        rw [hqs] at h hhead
        obtain rfl | h := List.mem_cons.mp h
        · intro hin
          obtain hin | hin := List.infix_cons_iff.mp hin
          · exact hpre (hin.trans (List.cons_prefix_cons.mpr ⟨rfl, hhead q' rfl⟩))
          · exact hmem q' List.mem_cons_self hin
        · exact hmem q (List.mem_cons_of_mem q' h)

/-- Where the text does not stand there is nothing to cut. -/
theorem split_of_not_isInfix (hold : old ≠ []) (h : ¬old <:+: t) : split old t = [t] :=
  pieces_of_quiet ((quiet_exact_iff hold).mpr h)

/-- What stands before a text that is replaced wherever it stands does not matter. -/
theorem substitute_exact (new t : List α) (skip : ℕ) (before before' : Option α) :
    substitute (found .empty (exact old)) new skip before t =
      substitute (found .empty (exact old)) new skip before' t := by
  cases t with
  | nil => rw [substitute_nil, substitute_nil]
  | cons c t =>
    cases skip with
    | succ skip => rfl
    | zero =>
      by_cases hpre : old <+: c :: t
      · rw [substitute, substitute, found_exact_of_isPrefix hpre, found_exact_of_isPrefix hpre]
      · rw [substitute_of_none (found_exact_eq_none.mpr hpre),
          substitute_of_none (found_exact_eq_none.mpr hpre)]

/-- The text that is replaced, at the front. -/
theorem replace_append_self (hold : old ≠ []) (new t : List α) :
    replace old new (old ++ t) = new ++ replace old new t := by
  have hfound : found .empty (exact old) (none, [] ++ old ++ t) =
      some (([] : List α).length, ([] ++ old).length) :=
    found_exact_of_isPrefix (List.prefix_append old t)
  have hhit := substitute_of_found (r := new) (by simpa using hold) hfound
  rw [List.nil_append, List.nil_append] at hhit
  rw [replace, sub, hhit, substitute_exact new t 0 _ none]
  rfl

/-- An element where the text that is replaced does not begin. -/
theorem replace_cons (h : ¬old <+: c :: t) (new : List α) :
    replace old new (c :: t) = c :: replace old new t := by
  rw [replace, sub, substitute_of_none (found_exact_eq_none.mpr h), substitute_exact new t 0 _ none]
  rfl

/-- A text from its end to its front, over what is replaced in it. -/
theorem occurrences_induction (hold : old ≠ []) {motive : List α → Prop} (nil : motive [])
    (hit : ∀ t, motive t → motive (old ++ t))
    (same : ∀ c t, ¬old <+: c :: t → motive t → motive (c :: t)) (t : List α) : motive t := by
  generalize hn : t.length = n
  induction n using Nat.strongRecOn generalizing t with
  | ind n ih =>
    subst hn
    cases t with
    | nil => exact nil
    | cons c t =>
      by_cases hpre : old <+: c :: t
      · obtain ⟨s, hs⟩ := hpre
        rw [← hs] at ih ⊢
        refine hit s (ih s.length ?_ s rfl)
        have hpos := List.length_pos_iff.mpr hold
        rw [List.length_append]
        omega
      · exact same c t hpre (ih t.length (Nat.lt_succ_self _) t rfl)

/-- To replace a text by itself does nothing. -/
theorem replace_self (hold : old ≠ []) (t : List α) : replace old old t = t := by
  induction t using occurrences_induction hold with
  | nil => rfl
  | hit t ih => rw [replace_append_self hold, ih]
  | same c t hpre ih => rw [replace_cons hpre, ih]

/-- **Two texts are replaced one by one** if no occurrence has a part of both. -/
theorem replace_append (hold : old ≠ []) (new : List α)
    (h : ∀ x y, a ++ b = x ++ old ++ y → x.length + old.length ≤ a.length ∨ a.length ≤ x.length) :
    replace old new (a ++ b) = replace old new a ++ replace old new b := by
  induction a using occurrences_induction hold with
  | nil => rfl
  | hit a ih =>
    rw [List.append_assoc, replace_append_self hold, replace_append_self hold, ih fun x y hxy => ?_,
      List.append_assoc]
    obtain hle | hle := h (old ++ x) y (by rw [List.append_assoc, hxy]; simp only [List.append_assoc])
    all_goals
      simp only [List.length_append] at hle
      omega
  | same c a hpre ih =>
    have hlong : ¬old <+: c :: (a ++ b) := by
      intro hlong
      obtain ⟨y, hy⟩ := hlong
      obtain hle | hle := h [] y hy.symm
      · have hca : c :: a <+: c :: (a ++ b) := ⟨b, rfl⟩
        refine hpre (List.prefix_of_prefix_length_le ⟨y, hy⟩ hca ?_)
        simpa using hle
      · simp at hle
    rw [List.cons_append, replace_cons hlong, replace_cons hpre, ih fun x y hxy => ?_,
      List.cons_append]
    obtain hle | hle := h (c :: x) y (by rw [List.cons_append, hxy]; rfl)
    all_goals
      simp only [List.length_cons] at hle
      omega

/-- What does not touch a text leaves it as it is. -/
theorem replace_of_not_touches (hv : v ≠ []) (new : List α) (h : ¬Touches v a p b) :
    replace v new (a ++ p ++ b) = replace v new a ++ p ++ replace v new b := by
  have hpos := List.length_pos_iff.mpr hv
  have hp : ¬v <:+: p := by
    rintro ⟨x, y, rfl⟩
    refine h ⟨a ++ x, y ++ b, by simp only [List.append_assoc], ?_, ?_⟩
    all_goals
      simp only [List.length_append]
      omega
  have hfirst (x y : List α) (hxy : a ++ (p ++ b) = x ++ v ++ y) :
      x.length + v.length ≤ a.length ∨ a.length ≤ x.length := by
    by_contra hnot
    exact h ⟨x, y, by rw [List.append_assoc, hxy], by omega, by omega⟩
  have hsecond (x y : List α) (hxy : p ++ b = x ++ v ++ y) :
      x.length + v.length ≤ p.length ∨ p.length ≤ x.length := by
    by_contra hnot
    refine h ⟨a ++ x, y, by rw [List.append_assoc, hxy]; simp only [List.append_assoc], ?_, ?_⟩
    all_goals
      simp only [List.length_append]
      omega
  rw [List.append_assoc, replace_append hv new hfirst, replace_append hv new hsecond,
    replace_of_not_isInfix hp, List.append_assoc]

/-- **Pieces that a text does not touch are cut further.** -/
theorem replace_intercalate (hv : v ≠ []) (hps : ps ≠ []) (h : Untouched v p ps) :
    replace v p (p.intercalate ps) = p.intercalate (ps.flatMap (split v)) := by
  induction ps with
  | nil => exact absurd rfl hps
  | cons q ps ih =>
    by_cases hne : ps = []
    · subst hne
      simpa using replace_eq_intercalate v p q
    · have hnot := h [q] ps rfl (List.cons_ne_nil _ _) hne
      rw [List.intercalate_singleton] at hnot
      rw [List.intercalate_cons_of_ne_nil hne, replace_of_not_touches hv p hnot, ih hne h.tail,
        List.flatMap_cons, intercalate_append (split_ne_nil v q) (flatMap_split_ne_nil hne),
        replace_eq_intercalate]

end Split

end Pattern

end Text
