/-
# Replacing what a pattern matches

The patterns of the module `re` over any alphabet, with the match that the engine takes where
there are several: it tries the ways to match in a fixed order, longer repetitions first, until
what comes next accepts one.  `run` hands the ends of a match to a continuation in that order;
`Reaches` says which ends there are, and `run_eq_none` and `exists_of_run` connect the two.
`substitute` is `re.sub`.
-/

import Mathlib.Algebra.Order.Monoid.Defs
import Mathlib.Data.List.Basic
import Mathlib.Data.List.TakeDrop
import Mathlib.Logic.Relation

namespace Text

/-- A pattern over an alphabet. -/
inductive Pattern (α : Type) where
  | empty
  | one (p : α → Bool)
  | seq (a b : Pattern α)
  | alt (a b : Pattern α)
  | star (a : Pattern α)
  | boundary (isWord : α → Bool)

namespace Pattern

variable {α β : Type}

/-- A place in a text: what stands before it, if anything, and the rest. -/
abbrev Place (α : Type) := Option α × List α

/-- A repetition, at most `n` times, as often as what comes next allows. -/
def repeated (step : Place α → (Place α → Option β) → Option β) :
    ℕ → Place α → (Place α → Option β) → Option β
  | 0, x, k => k x
  | n + 1, x, k =>
      (step x fun y => if y.2.length < x.2.length then repeated step n y k else none).or (k x)

/-- What the continuation makes of the first end that it accepts. -/
def run : Pattern α → Place α → (Place α → Option β) → Option β
  | .empty, x, k => k x
  | .one p, (_, c :: t), k => if p c then k (some c, t) else none
  | .one _, (_, []), _ => none
  | .seq a b, x, k => a.run x fun y => b.run y k
  | .alt a b, x, k => (a.run x k).or (b.run x k)
  | .star a, x, k => repeated a.run x.2.length x k
  | .boundary isWord, x, k => if xor (x.1.any isWord) (x.2.head?.any isWord) then k x else none

/-- `re.search`, from a place on. -/
def searchFrom (r : Pattern α) : Option α → List α → Bool
  | before, [] => (r.run (before, []) fun _ => some ()).isSome
  | before, c :: t => (r.run (before, c :: t) fun _ => some ()).isSome || r.searchFrom (some c) t

/-- `re.search`. -/
def search (r : Pattern α) (t : List α) : Bool := r.searchFrom none t

/-- One pattern after another. -/
def cat (rs : List (Pattern α)) : Pattern α := rs.foldr .seq .empty

/-- One of several patterns. -/
def any (r : Pattern α) (rs : List (Pattern α)) : Pattern α := rs.foldl .alt r

/-- `r?`. -/
def opt (r : Pattern α) : Pattern α := .alt r .empty

/-- `[p]+`. -/
def plus (p : α → Bool) : Pattern α := .seq (.one p) (.star (.one p))

/-- A text as it stands. -/
def exact [DecidableEq α] (w : List α) : Pattern α := cat (w.map fun a => .one (· == a))

/-- The lengths of what is kept and of the match: a pattern for what is kept, and then one for
what is replaced. -/
def found (kept dropped : Pattern α) (x : Place α) : Option (ℕ × ℕ) :=
  kept.run x fun y => dropped.run y fun z =>
    some (x.2.length - y.2.length, x.2.length - z.2.length)

/-- `re.sub`: what is replaced at each place, the first number being what is left of a match.
Matches are not empty. -/
def substitute (match? : Place α → Option (ℕ × ℕ)) (r : List α) :
    ℕ → Option α → List α → List α
  | _, _, [] => []
  | skip + 1, _, c :: t => substitute match? r skip (some c) t
  | 0, before, c :: t =>
      match match? (before, c :: t) with
      | none => c :: substitute match? r 0 (some c) t
      | some (kept, n) =>
          (c :: t).take kept ++ r ++ substitute match? r (n - 1) (some c) t

/-- `re.sub`, with one group that is kept. -/
def sub (kept dropped : Pattern α) (r t : List α) : List α :=
  substitute (found kept dropped) r 0 none t

/-- `str.replace`, of a text that is not empty. -/
def replace [DecidableEq α] (old new t : List α) : List α := sub .empty (exact old) new t

section Reaches

variable {a b : Pattern α} {p : α → Bool} {x y z : Place α} {before : Option α} {t u v : List α}

/-- The ends of a match. -/
def Reaches : Pattern α → Place α → Place α → Prop
  | .empty, x, y => y = x
  | .one p, x, y => ∃ c, p c = true ∧ x.2 = c :: y.2 ∧ y.1 = some c
  | .seq a b, x, z => ∃ y, a.Reaches x y ∧ b.Reaches y z
  | .alt a b, x, y => a.Reaches x y ∨ b.Reaches x y
  | .star a, x, y =>
      Relation.ReflTransGen (fun x y => a.Reaches x y ∧ y.2.length < x.2.length) x y
  | .boundary isWord, x, y => xor (x.1.any isWord) (x.2.head?.any isWord) = true ∧ y = x

/-- A repetition finds what its step finds again and again, and finds something if anything is
there. -/
theorem repeated_spec {step : Place α → (Place α → Option β) → Option β}
    {reaches : Place α → Place α → Prop}
    (hsome : ∀ x k r, step x k = some r → ∃ y, reaches x y ∧ k y = some r)
    (hnone : ∀ x k, step x k = none → ∀ y, reaches x y → k y = none)
    {n : ℕ} {k : Place α → Option β} (hn : x.2.length ≤ n) :
    (∀ r, repeated step n x k = some r → ∃ y,
      Relation.ReflTransGen (fun x y => reaches x y ∧ y.2.length < x.2.length) x y ∧
        k y = some r) ∧
    (repeated step n x k = none → ∀ y,
      Relation.ReflTransGen (fun x y => reaches x y ∧ y.2.length < x.2.length) x y →
        k y = none) := by
  induction n generalizing x with
  | zero =>
    refine ⟨fun r hr => ⟨x, .refl, hr⟩, fun hr y hy => ?_⟩
    obtain rfl | ⟨z, ⟨-, hlt⟩, -⟩ := hy.cases_head
    · exact hr
    · omega
  | succ n ih =>
    rw [repeated]
    constructor
    · intro r hr
      obtain hr | ⟨-, hr⟩ := Option.or_eq_some_iff.mp hr
      · obtain ⟨y, hy, hk⟩ := hsome _ _ _ hr
        split_ifs at hk with hlt
        obtain ⟨z, hz, hk⟩ := (ih (by omega)).1 r hk
        exact ⟨z, .head ⟨hy, hlt⟩ hz, hk⟩
      · exact ⟨x, .refl, hr⟩
    · intro hr y hy
      obtain ⟨hstep, hk⟩ := Option.or_eq_none_iff.mp hr
      obtain rfl | ⟨z, ⟨hz, hlt⟩, hy⟩ := hy.cases_head
      · exact hk
      · have hcut := hnone _ _ hstep z hz
        rw [if_pos hlt] at hcut
        exact (ih (by omega)).2 hcut y hy

/-- **A run is right and complete**: what it finds is reached, and what is reached and
accepted is found. -/
theorem run_spec (a : Pattern α) (x : Place α) (k : Place α → Option β) :
    (∀ r, a.run x k = some r → ∃ y, a.Reaches x y ∧ k y = some r) ∧
      (a.run x k = none → ∀ y, a.Reaches x y → k y = none) := by
  induction a generalizing x k with
  | empty =>
    refine ⟨fun r hr => ⟨x, rfl, hr⟩, ?_⟩
    rintro hr y rfl
    exact hr
  | one p =>
    obtain ⟨before, text⟩ := x
    cases text with
    | nil =>
      refine ⟨fun r hr => by simp [run] at hr, ?_⟩
      rintro - y ⟨c, -, htext, -⟩
      simp at htext
    | cons c t =>
      rw [run]
      split_ifs with hp
      · refine ⟨fun r hr => ⟨(some c, t), ⟨c, hp, rfl, rfl⟩, hr⟩, ?_⟩
        rintro hr ⟨_, _⟩ ⟨d, -, htext, rfl⟩
        obtain ⟨rfl, rfl⟩ := List.cons.inj htext
        exact hr
      · refine ⟨fun r hr => by simp at hr, ?_⟩
        rintro - y ⟨d, hd, htext, -⟩
        obtain ⟨rfl, -⟩ := List.cons.inj htext
        exact absurd hd hp
  | seq a b iha ihb =>
    rw [run]
    constructor
    · intro r hr
      obtain ⟨y, hy, hr⟩ := (iha x _).1 r hr
      obtain ⟨z, hz, hr⟩ := (ihb y k).1 r hr
      exact ⟨z, ⟨y, hy, hz⟩, hr⟩
    · rintro hr z ⟨y, hy, hz⟩
      exact (ihb y k).2 ((iha x _).2 hr y hy) z hz
  | alt a b iha ihb =>
    rw [run]
    constructor
    · intro r hr
      obtain hr | ⟨-, hr⟩ := Option.or_eq_some_iff.mp hr
      · obtain ⟨y, hy, hr⟩ := (iha x k).1 r hr
        exact ⟨y, .inl hy, hr⟩
      · obtain ⟨y, hy, hr⟩ := (ihb x k).1 r hr
        exact ⟨y, .inr hy, hr⟩
    · intro hr y hy
      obtain ⟨ha, hb⟩ := Option.or_eq_none_iff.mp hr
      obtain hy | hy := hy
      · exact (iha x k).2 ha y hy
      · exact (ihb x k).2 hb y hy
  | star a ih => exact repeated_spec (fun x k => (ih x k).1) (fun x k => (ih x k).2) (Nat.le_refl _)
  | boundary isWord =>
    rw [run]
    split_ifs with hbound
    · refine ⟨fun r hr => ⟨x, ⟨hbound, rfl⟩, hr⟩, ?_⟩
      rintro hr y ⟨-, rfl⟩
      exact hr
    · exact ⟨fun r hr => by simp at hr, fun _ y hy => absurd hy.1 hbound⟩

/-- **What is returned comes from an end of a match.** -/
theorem exists_of_run {k : Place α → Option β} {r : β} (h : a.run x k = some r) :
    ∃ y, a.Reaches x y ∧ k y = some r := (run_spec a x k).1 r h

/-- **Nothing is returned if no end of a match is accepted,** and only then. -/
theorem run_eq_none {k : Place α → Option β} :
    a.run x k = none ↔ ∀ y, a.Reaches x y → k y = none := by
  refine ⟨(run_spec a x k).2, fun h => ?_⟩
  by_contra hne
  obtain ⟨r, hr⟩ := Option.ne_none_iff_exists'.mp hne
  obtain ⟨y, hy, hk⟩ := exists_of_run hr
  rw [h y hy] at hk
  cases hk

end Reaches

section Search

variable {r kept dropped : Pattern α} {before : Option α} {t : List α} {x : Place α}

/-- The element before the rest, after a text has been consumed. -/
def lastOr (before : Option α) (u : List α) : Option α := u.getLast?.or before

/-- Past no character, the last one is the one before. -/
@[simp]
theorem lastOr_nil : lastOr before [] = before := rfl

/-- Past some characters, the first of them no longer counts. -/
@[simp]
theorem lastOr_cons (c : α) (u : List α) : lastOr before (c :: u) = lastOr (some c) u := by
  cases u with
  | nil => rfl
  | cons d u => simp [lastOr, List.getLast?_eq_some_getLast]

/-- A pattern that goes nowhere finds nothing. -/
theorem isSome_run_eq_false :
    (r.run x fun _ => some ()).isSome = false ↔ ∀ y, ¬r.Reaches x y := by
  rw [Option.isSome_eq_false_iff, Option.isNone_iff_eq_none, run_eq_none]
  constructor
  · intro h y hy
    cases h y hy
  · exact fun h y hy => absurd hy (h y)

/-- Nothing is found if no match starts anywhere. -/
theorem searchFrom_eq_false : r.searchFrom before t = false ↔
    ∀ u v, t = u ++ v → ∀ y, ¬r.Reaches (lastOr before u, v) y := by
  induction t generalizing before with
  | nil =>
    rw [searchFrom, isSome_run_eq_false]
    refine ⟨fun h u v huv => ?_, fun h => h [] [] rfl⟩
    obtain ⟨rfl, rfl⟩ := List.append_eq_nil_iff.mp huv.symm
    exact h
  | cons c t ih =>
    rw [searchFrom, Bool.or_eq_false_iff, isSome_run_eq_false, ih]
    constructor
    · rintro ⟨hhere, hlater⟩ u v huv
      cases u with
      | nil =>
        obtain rfl : c :: t = v := huv
        exact hhere
      | cons d u =>
        obtain ⟨rfl, hrest⟩ := List.cons.inj huv
        rw [lastOr_cons]
        exact hlater u v hrest
    · intro h
      refine ⟨h [] (c :: t) rfl, fun u v huv => ?_⟩
      have hlater := h (c :: u) v (by rw [huv, List.cons_append])
      rwa [lastOr_cons] at hlater

/-- Nothing is found where the pattern goes nowhere. -/
theorem found_eq_none : found kept dropped x = none ↔ ∀ y, ¬(seq kept dropped).Reaches x y := by
  rw [found, run_eq_none]
  constructor
  · rintro h z ⟨y, hy, hz⟩
    cases run_eq_none.mp (h y hy) z hz
  · exact fun h y hy => run_eq_none.mpr fun z hz => absurd ⟨y, hy, hz⟩ (h z)

end Search

section Spells

variable {a b : Pattern α} {p : α → Bool} {before : Option α} {t u v : List α}
  {K L : List α → Prop}

/-- The last character past two texts. -/
theorem lastOr_append : lastOr before (u ++ v) = lastOr (lastOr before u) v := by
  induction u generalizing before with
  | nil => rfl
  | cons c u ih => rw [List.cons_append, lastOr_cons, lastOr_cons, ih]

/-- Past some text, what stands before it does not matter. -/
theorem lastOr_of_ne_nil (h : u ≠ []) (before : Option α) : lastOr before u = lastOr none u := by
  obtain ⟨c, u, rfl⟩ := List.exists_cons_of_ne_nil h
  rw [lastOr_cons, lastOr_cons]

/-- What the pattern consumes is a text of the language, and any such text that stands there,
whatever its neighbours. -/
def Spells (r : Pattern α) (L : List α → Prop) : Prop :=
  ∀ before t y, r.Reaches (before, t) y ↔ ∃ u v, L u ∧ t = u ++ v ∧ y = (lastOr before u, v)

/-- The empty pattern spells the empty text. -/
theorem spells_empty : (empty : Pattern α).Spells (· = []) := by
  intro before t y
  constructor
  · rintro rfl
    exact ⟨[], t, rfl, rfl, rfl⟩
  · rintro ⟨_, v, rfl, rfl, rfl⟩
    rfl

/-- A character class spells its characters. -/
theorem spells_one (p : α → Bool) : (one p).Spells fun u => ∃ c, p c = true ∧ u = [c] := by
  rintro before t ⟨last, rest⟩
  constructor
  · rintro ⟨c, hc, rfl, rfl⟩
    exact ⟨[c], rest, ⟨c, hc, rfl⟩, rfl, rfl⟩
  · rintro ⟨_, v, ⟨c, hc, rfl⟩, rfl, hy⟩
    obtain ⟨rfl, rfl⟩ := Prod.mk.inj hy
    exact ⟨c, hc, rfl, rfl⟩

/-- A sequence spells the texts of the first before those of the second. -/
theorem Spells.seq (ha : a.Spells K) (hb : b.Spells L) :
    (seq a b).Spells fun w => ∃ u v, K u ∧ L v ∧ w = u ++ v := by
  intro before t y
  constructor
  · rintro ⟨z, hz, hy⟩
    obtain ⟨u, s, hu, rfl, rfl⟩ := (ha _ _ _).mp hz
    obtain ⟨v, r, hv, rfl, rfl⟩ := (hb _ _ _).mp hy
    exact ⟨u ++ v, r, ⟨u, v, hu, hv, rfl⟩, by simp, by rw [lastOr_append]⟩
  · rintro ⟨_, r, ⟨u, v, hu, hv, rfl⟩, rfl, rfl⟩
    refine ⟨(lastOr before u, v ++ r), (ha _ _ _).mpr ⟨u, v ++ r, hu, by simp, rfl⟩,
      (hb _ _ _).mpr ⟨v, r, hv, rfl, by rw [lastOr_append]⟩⟩

/-- An alternative spells the texts of both. -/
theorem Spells.alt (ha : a.Spells K) (hb : b.Spells L) : (alt a b).Spells fun w => K w ∨ L w := by
  intro before t y
  constructor
  · rintro (h | h)
    · obtain ⟨u, v, hu, ht, hy⟩ := (ha _ _ _).mp h
      exact ⟨u, v, .inl hu, ht, hy⟩
    · obtain ⟨u, v, hu, ht, hy⟩ := (hb _ _ _).mp h
      exact ⟨u, v, .inr hu, ht, hy⟩
  · rintro ⟨u, v, hu | hu, ht, hy⟩
    · exact .inl ((ha _ _ _).mpr ⟨u, v, hu, ht, hy⟩)
    · exact .inr ((hb _ _ _).mpr ⟨u, v, hu, ht, hy⟩)

/-- What a pattern spells may be said in another way. -/
theorem Spells.congr (h : a.Spells K) (hKL : ∀ u, K u ↔ L u) : a.Spells L := by
  intro before t y
  simp only [h before t y, hKL]

/-- Elements of a class, as many as there may be. -/
theorem spells_class (p : α → Bool) : (star (one p)).Spells fun u => ∀ c ∈ u, p c = true := by
  intro before t y
  constructor
  · intro h
    generalize hx : (before, t) = x at h
    induction h using Relation.ReflTransGen.head_induction_on generalizing before t with
    | refl =>
      subst hx
      exact ⟨[], t, by simp, rfl, rfl⟩
    | @head x z hstep _ ih =>
      subst hx
      obtain ⟨⟨c, hc, ht, hlast⟩, -⟩ := hstep
      obtain ⟨u, v, hu, hz, rfl⟩ := ih _ _ rfl
      obtain rfl : t = c :: z.2 := ht
      exact ⟨c :: u, v, List.forall_mem_cons.mpr ⟨hc, hu⟩, by rw [hz, List.cons_append],
        by rw [lastOr_cons, hlast]⟩
  · rintro ⟨u, v, hu, rfl, rfl⟩
    induction u generalizing before with
    | nil => exact .refl
    | cons c u ih =>
      obtain ⟨hc, hu⟩ := List.forall_mem_cons.mp hu
      rw [lastOr_cons]
      exact .head (b := (some c, u ++ v)) ⟨⟨c, hc, rfl, rfl⟩, Nat.lt_succ_self _⟩ (ih _ hu)

/-- A repeated class spells the texts of its characters, but the empty one. -/
theorem spells_plus (p : α → Bool) : (plus p).Spells fun u => u ≠ [] ∧ ∀ c ∈ u, p c = true := by
  refine ((spells_one p).seq (spells_class p)).congr fun u => ?_
  constructor
  · rintro ⟨_, v, ⟨c, hc, rfl⟩, hv, rfl⟩
    exact ⟨List.cons_ne_nil _ _, List.forall_mem_cons.mpr ⟨hc, hv⟩⟩
  · rintro ⟨hne, hall⟩
    obtain ⟨c, v, rfl⟩ := List.exists_cons_of_ne_nil hne
    obtain ⟨hc, hv⟩ := List.forall_mem_cons.mp hall
    exact ⟨[c], v, ⟨c, hc, rfl⟩, hv, rfl⟩

/-- A literal spells itself alone. -/
theorem spells_exact [DecidableEq α] (w : List α) : (exact w).Spells (· = w) := by
  induction w with
  | nil => exact spells_empty
  | cons c w ih =>
    refine ((spells_one (· == c)).seq ih).congr fun u => ?_
    constructor
    · rintro ⟨_, _, ⟨d, hd, rfl⟩, rfl, rfl⟩
      rw [eq_of_beq hd]
      rfl
    · rintro rfl
      exact ⟨[c], w, ⟨c, beq_self_eq_true c, rfl⟩, rfl, rfl⟩

/-- A pattern is found where a text of its language stands. -/
theorem Spells.search_eq_false (h : a.Spells L) :
    a.search t = false ↔ ∀ u, L u → ¬u <:+: t := by
  rw [search, searchFrom_eq_false]
  constructor
  · rintro hall u hu ⟨s, v, rfl⟩
    exact hall s (u ++ v) (by simp) _ ((h _ _ _).mpr ⟨u, v, hu, rfl, rfl⟩)
  · rintro hall s v rfl y hy
    obtain ⟨u, v, hu, rfl, -⟩ := (h _ _ _).mp hy
    exact hall u hu ⟨s, v, by simp⟩

/-- The last end of all is taken if nothing that follows refuses it. -/
theorem run_class_of_accepting {k : Place α → Option β} (hk : ∀ y, k y ≠ none) :
    (star (one p)).run (before, t) k = k (lastOr before (t.takeWhile p), t.dropWhile p) := by
  have hrepeat (n : ℕ) (before : Option α) (t : List α) (hn : t.length ≤ n) :
      repeated (one p).run n (before, t) k =
        k (lastOr before (t.takeWhile p), t.dropWhile p) := by
    induction n generalizing before t with
    | zero =>
      obtain rfl := List.length_eq_zero_iff.mp (Nat.le_zero.mp hn)
      rfl
    | succ n ih =>
      cases t with
      | nil => rfl
      | cons c t =>
        rw [repeated, run]
        by_cases hc : p c = true
        · rw [if_pos hc, if_pos (show t.length < (c :: t).length from Nat.lt_succ_self _),
            ih _ _ (by simpa using hn),
            List.takeWhile_cons_of_pos hc, List.dropWhile_cons_of_pos hc, lastOr_cons]
          obtain ⟨r, hr⟩ := Option.ne_none_iff_exists'.mp
            (hk (lastOr (some c) (t.takeWhile p), t.dropWhile p))
          rw [hr, Option.some_or]
        · rw [if_neg hc, Option.none_or, List.takeWhile_cons_of_neg hc,
            List.dropWhile_cons_of_neg hc, lastOr_nil]
  exact hrepeat _ _ _ (Nat.le_refl _)

/-- A repeated class takes all it can, where what follows accepts any place. -/
theorem run_plus_of_accepting {k : Place α → Option β} (hk : ∀ y, k y ≠ none) {c : α}
    (hc : p c = true) : (plus p).run (before, c :: t) k =
      k (lastOr before ((c :: t).takeWhile p), (c :: t).dropWhile p) := by
  rw [plus, run, run, if_pos hc, run_class_of_accepting hk, List.takeWhile_cons_of_pos hc,
    List.dropWhile_cons_of_pos hc, lastOr_cons]

end Spells

section Substitute

variable {m : Place α → Option (ℕ × ℕ)} {r t u v : List α} {before : Option α} {c : α}

/-- In the empty text nothing is replaced. -/
@[simp]
theorem substitute_nil (skip : ℕ) : substitute m r skip before [] = [] := by
  cases skip <;> rfl

/-- Where nothing is found, the character stays. -/
theorem substitute_of_none (h : m (before, c :: t) = none) :
    substitute m r 0 before (c :: t) = c :: substitute m r 0 (some c) t := by
  rw [substitute, h]

/-- What is to be skipped is skipped, and read on from there. -/
theorem substitute_skip (u t : List α) :
    substitute m r u.length before (u ++ t) = substitute m r 0 (lastOr before u) t := by
  induction u generalizing before with
  | nil => rfl
  | cons c u ih => rw [List.length_cons, List.cons_append, substitute, ih, lastOr_cons]

/-- What is left after a match ends the text. -/
theorem Reaches.suffix {a : Pattern α} {x y : Place α} (h : a.Reaches x y) : y.2 <:+ x.2 := by
  induction a generalizing x y with
  | empty =>
    obtain rfl : y = x := h
    exact List.suffix_refl _
  | one p =>
    obtain ⟨c, -, htext, -⟩ := h
    rw [htext]
    exact List.suffix_cons c y.2
  | seq a b iha ihb =>
    obtain ⟨z, hz, hy⟩ := h
    exact (ihb hy).trans (iha hz)
  | alt a b iha ihb => exact h.elim iha ihb
  | star a ih =>
    induction h with
    | refl => exact List.suffix_refl _
    | tail _ hstep hrest => exact (ih hstep.1).trans hrest
  | boundary isWord =>
    obtain rfl : y = x := h.2
    exact List.suffix_refl _

/-- What is found lies in the text, and is not empty if what is replaced is not. -/
theorem found_bounds {kept dropped : Pattern α} {K : List α → Prop} (hd : dropped.Spells K)
    (hK : ¬K []) (x : Place α) (i n : ℕ) (h : found kept dropped x = some (i, n)) :
    i ≤ n ∧ 0 < n ∧ n ≤ x.2.length := by
  obtain ⟨y, hy, h⟩ := exists_of_run h
  obtain ⟨z, hz, h⟩ := exists_of_run h
  obtain ⟨rfl, rfl⟩ := Prod.mk.inj (Option.some.inj h)
  have hlength := hy.suffix.length_le
  obtain ⟨u, v, hu, hrest, rfl⟩ := (hd y.1 y.2 z).mp hz
  have hpos : 0 < u.length := List.length_pos_iff.mpr (by rintro rfl; exact hK hu)
  rw [hrest, List.length_append] at hlength ⊢
  simp only
  omega

/-- A match: what is kept, what is replaced, and the rest. -/
theorem substitute_of_found {kept dropped : List α} (hne : kept ++ dropped ≠ [])
    (h : m (before, kept ++ dropped ++ t) = some (kept.length, (kept ++ dropped).length)) :
    substitute m r 0 before (kept ++ dropped ++ t) =
      kept ++ r ++ substitute m r 0 (lastOr before (kept ++ dropped)) t := by
  obtain ⟨c, w, hw⟩ := List.exists_cons_of_ne_nil hne
  rw [hw, List.cons_append] at h ⊢
  rw [substitute, h]
  simp only
  have htake : (c :: (w ++ t)).take kept.length = kept := by
    rw [← List.cons_append, ← hw, List.append_assoc, List.take_left]
  rw [htake, List.length_cons, Nat.add_sub_cancel, substitute_skip, lastOr_cons]

/-- What stands unchanged before the rest: no match starts in it. -/
theorem substitute_append (h : ∀ w c s, u = w ++ c :: s → m (lastOr before w, c :: s ++ t) = none) :
    substitute m r 0 before (u ++ t) = u ++ substitute m r 0 (lastOr before u) t := by
  induction u generalizing before with
  | nil => rfl
  | cons c u ih =>
    have hnone : m (before, c :: (u ++ t)) = none := h [] c u rfl
    rw [List.cons_append, substitute_of_none hnone, List.cons_append, lastOr_cons,
      ih fun w d s hu => ?_]
    have hm := h (c :: w) d s (by rw [hu, List.cons_append])
    rwa [lastOr_cons] at hm

/-- How `re.sub` goes through a text: what stands after a place, and what it becomes. -/
inductive Rewritten (m : Place α → Option (ℕ × ℕ)) (r : List α) :
    Option α → List α → List α → Prop
  | nil {before : Option α} : Rewritten m r before [] []
  | same {before : Option α} {c : α} {t out : List α} :
      m (before, c :: t) = none → Rewritten m r (some c) t out →
      Rewritten m r before (c :: t) (c :: out)
  | hit {before : Option α} {kept dropped t out : List α} :
      m (before, kept ++ dropped ++ t) = some (kept.length, (kept ++ dropped).length) →
      kept ++ dropped ≠ [] → Rewritten m r (lastOr before (kept ++ dropped)) t out →
      Rewritten m r before (kept ++ dropped ++ t) (kept ++ r ++ out)

/-- What a substitution yields is of the text or of the replacement. -/
theorem mem_substitute {m : Place α → Option (ℕ × ℕ)} {r t : List α} {skip : ℕ}
    {before : Option α} {d : α} (h : d ∈ substitute m r skip before t) : d ∈ t ∨ d ∈ r := by
  induction t generalizing skip before with
  | nil =>
    rw [substitute] at h
    exact absurd h List.not_mem_nil
  | cons c t ih =>
    cases skip with
    | succ skip => exact (ih h).imp_left (List.mem_cons_of_mem c)
    | zero =>
      rw [substitute] at h
      split at h
      · obtain rfl | h := List.mem_cons.mp h
        · exact .inl List.mem_cons_self
        · exact (ih h).imp_left (List.mem_cons_of_mem c)
      · simp only [List.mem_append] at h
        obtain (h | h) | h := h
        · exact .inl (List.mem_of_mem_take h)
        · exact .inr h
        · exact (ih h).imp_left (List.mem_cons_of_mem c)

/-- **A substitution goes through the text,** if its matches lie in it and are not empty. -/
theorem rewritten_substitute (r : List α)
    (hm : ∀ x i n, m x = some (i, n) → i ≤ n ∧ 0 < n ∧ n ≤ x.2.length) (before : Option α)
    (t : List α) : Rewritten m r before t (substitute m r 0 before t) := by
  generalize hn : t.length = n
  induction n using Nat.strongRecOn generalizing before t with
  | ind n ih =>
    subst hn
    cases t with
    | nil => exact .nil
    | cons c t =>
      cases hmatch : m (before, c :: t) with
      | none =>
        rw [substitute_of_none hmatch]
        exact .same hmatch (ih _ (Nat.lt_succ_self _) _ _ rfl)
      | some found =>
        obtain ⟨i, n⟩ := found
        obtain ⟨hin, hpos, hle⟩ := hm _ _ _ hmatch
        have hsplit : (c :: t).take i ++ ((c :: t).drop i).take (n - i) ++ (c :: t).drop n =
            c :: t := by
          have htake : (c :: t).take i ++ ((c :: t).drop i).take (n - i) = (c :: t).take n := by
            rw [← List.take_add, Nat.add_sub_cancel' hin]
          rw [htake, List.take_append_drop]
        have hkept : ((c :: t).take i).length = i := List.length_take_of_le (Nat.le_trans hin hle)
        have hboth : ((c :: t).take i ++ ((c :: t).drop i).take (n - i)).length = n := by
          rw [← List.take_add, Nat.add_sub_cancel' hin, List.length_take_of_le hle]
        have hne : (c :: t).take i ++ ((c :: t).drop i).take (n - i) ≠ [] :=
          List.ne_nil_of_length_pos (by rw [hboth]; exact hpos)
        generalize hk : (c :: t).take i = kept at *
        generalize hd : ((c :: t).drop i).take (n - i) = dropped at *
        generalize hr : (c :: t).drop n = rest at *
        have hrest : rest.length < (c :: t).length := by
          rw [← hr, List.length_drop, List.length_cons]
          omega
        rw [← hsplit] at hmatch ⊢
        rw [← hsplit] at hrest
        have hfound : m (before, kept ++ dropped ++ rest) =
            some (kept.length, (kept ++ dropped).length) := by rw [hmatch, hkept, hboth]
        rw [substitute_of_found hne hfound]
        exact .hit hfound hne (ih _ (by rwa [← hsplit]) _ _ rfl)

variable {out : List α}

/-- No match starts anywhere in a text. -/
def Quiet (m : Place α → Option (ℕ × ℕ)) (before : Option α) (t : List α) : Prop :=
  ∀ u v, t = u ++ v → v ≠ [] → m (lastOr before u, v) = none

/-- Nothing is found in the empty text. -/
theorem Quiet.nil : Quiet m before [] := by
  intro u v huv hv
  exact absurd (List.append_eq_nil_iff.mp huv.symm).2 hv

/-- Nothing is found in a text if nothing is found at its start or later. -/
theorem Quiet.cons (hm : m (before, c :: t) = none) (h : Quiet m (some c) t) :
    Quiet m before (c :: t) := by
  intro u v huv hv
  cases u with
  | nil =>
    obtain rfl : c :: t = v := huv
    exact hm
  | cons d u =>
    obtain ⟨rfl, hrest⟩ := List.cons.inj huv
    rw [lastOr_cons]
    exact h u v hrest hv

/-- At the end nothing is found, if what is dropped may not be empty. -/
theorem found_eq_none_of_nil {kept dropped : Pattern α} {K : List α → Prop}
    (hd : dropped.Spells K) (hK : ¬K []) (before : Option α) :
    found kept dropped (before, []) = none := by
  refine Option.eq_none_iff_forall_ne_some.mpr fun found hfound => ?_
  obtain ⟨-, hpos, hle⟩ := found_bounds hd hK _ _ _ hfound
  exact absurd hpos (by simpa using hle)

/-- The search finds what the substitution would replace. -/
theorem searchFrom_eq_false_iff_quiet {kept dropped : Pattern α} {K : List α → Prop}
    (hd : dropped.Spells K) (hK : ¬K []) :
    (seq kept dropped).searchFrom before t = false ↔ Quiet (found kept dropped) before t := by
  rw [searchFrom_eq_false]
  constructor
  · exact fun h u v huv _ => found_eq_none.mpr (h u v huv)
  · intro h u v huv
    refine found_eq_none.mp ?_
    by_cases hv : v = []
    · rw [hv, found_eq_none_of_nil hd hK]
    · exact h u v huv hv

end Substitute

section Replace

variable [DecidableEq α] {old t : List α} {before : Option α}

/-- A literal is not found where the text does not start with it. -/
theorem found_exact_eq_none : found .empty (exact old) (before, t) = none ↔ ¬old <+: t := by
  rw [found, run_eq_none]
  constructor
  · rintro h ⟨v, rfl⟩
    have hnone := run_eq_none.mp (h _ rfl) (lastOr before old, v)
      ((spells_exact old _ _ _).mpr ⟨old, v, rfl, rfl, rfl⟩)
    cases hnone
  · rintro h y rfl
    refine run_eq_none.mpr fun z hz => ?_
    obtain ⟨_, v, rfl, rfl, -⟩ := (spells_exact old _ _ _).mp hz
    exact absurd (List.prefix_append _ _) h

/-- A literal is found where the text starts with it. -/
theorem found_exact_of_isPrefix (h : old <+: t) :
    found .empty (exact old) (before, t) = some (0, old.length) := by
  have hne : found .empty (exact old) (before, t) ≠ none := fun hnone =>
    found_exact_eq_none.mp hnone h
  obtain ⟨r, hr⟩ := Option.ne_none_iff_exists'.mp hne
  obtain ⟨y, rfl, hy⟩ := exists_of_run hr
  obtain ⟨z, hz, hlengths⟩ := exists_of_run hy
  obtain ⟨_, v, rfl, rfl, rfl⟩ := (spells_exact old _ _ _).mp hz
  rw [hr, ← hlengths]
  simp

/-- `replace` rewrites the text at the places of the literal. -/
theorem rewritten_replace (hold : old ≠ []) (r t : List α) :
    Rewritten (found .empty (exact old)) r none t (replace old r t) :=
  rewritten_substitute r (found_bounds (spells_exact old) (Ne.symm hold)) none t

/-- A text is found wherever it stands. -/
theorem quiet_exact_iff (hold : old ≠ []) :
    Quiet (found .empty (exact old)) before t ↔ ¬old <:+: t := by
  constructor
  · rintro h ⟨u, v, rfl⟩
    exact found_exact_eq_none.mp (h u (old ++ v) (List.append_assoc u old v) (by simp [hold]))
      (List.prefix_append old v)
  · intro h u v huv _
    refine found_exact_eq_none.mpr fun hpre => h ?_
    exact huv ▸ hpre.isInfix.trans (List.suffix_append u v).isInfix

/-- A text that does not have what is to be replaced stays as it is. -/
theorem replace_of_not_isInfix (h : ¬old <:+: t) (r : List α) : replace old r t = t := by
  have hsub : substitute (found .empty (exact old)) r 0 none (t ++ []) =
      t ++ substitute (found .empty (exact old)) r 0 (lastOr none t) [] := by
    refine substitute_append fun w c s ht => found_exact_eq_none.mpr fun hpre => h ?_
    rw [List.append_nil] at hpre
    exact ht ▸ (hpre.isInfix.trans (List.suffix_append w (c :: s)).isInfix)
  simpa [replace, sub] using hsub

/-- What is replaced is the text that was to be. -/
theorem eq_of_found_exact {before : Option α} {kept dropped : List α}
    (h : found .empty (exact old) (before, kept ++ dropped ++ t) =
      some (kept.length, (kept ++ dropped).length)) : kept ++ dropped = old := by
  obtain ⟨y, rfl, hy⟩ := exists_of_run h
  obtain ⟨z, hz, hlengths⟩ := exists_of_run hy
  obtain ⟨_, v, rfl, htext, rfl⟩ := (spells_exact old _ _ _).mp hz
  have hlength := (Prod.mk.inj (Option.some.inj hlengths)).2
  simp only [htext, List.length_append, Nat.add_sub_cancel] at hlength
  exact (List.append_inj htext (by rw [List.length_append]; omega)).1

/-- What is not of the text that is replaced stays. -/
theorem mem_replace {c : α} (hold : old ≠ []) (hc : c ∉ old) (r : List α) (h : c ∈ t) :
    c ∈ replace old r t := by
  have hrun := rewritten_replace hold r t
  generalize replace old r t = out at hrun
  generalize (none : Option α) = before at hrun
  induction hrun with
  | nil => exact h
  | same _ _ ih =>
    obtain rfl | h := List.mem_cons.mp h
    · exact List.mem_cons_self
    · exact List.mem_cons_of_mem _ (ih h)
  | hit hfound _ _ ih =>
    rw [List.mem_append, eq_of_found_exact hfound] at h
    exact List.mem_append_right _ (ih (h.resolve_left hc))

end Replace

end Pattern

end Text
