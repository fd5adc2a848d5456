/-
# A throttle on failed attempts

An attempt is answered at a moment, and its answer depends on two facts: until when the last
block lasts, and how many attempts have failed since the last success or block.  The attempt
that would be failure number `limit` imposes a block of length `duration`; while a block lasts
nothing is checked.

Over any run at non-decreasing moments: a block is kept to its end and not extended
(`Run.blocked`), fewer than `limit` failures lie between two successes or blocks
(`Run.countP_lt`), and a stretch of moments shorter than `duration` in which nothing succeeds
holds at most `limit` checks that fail (`Run.countP_le`).  The last one follows from the other
two: the first block in the stretch silences all that comes after it.
-/

import Mathlib.Data.List.Infix
import Mathlib.Data.List.TakeWhile
import Mathlib.Data.Nat.Notation

namespace Limits

/-- The answer to an attempt.  A `blocked` attempt is not checked; an attempt that fails its
check is `refused`, or it has `imposed` a block. -/
inductive Answer where
  | blocked (stop : ℕ)
  | accepted
  | refused
  | imposed (stop : ℕ)
  deriving DecidableEq, Repr

namespace Answer

/-- The check was made and failed. -/
def fails : Answer → Bool
  | .refused | .imposed _ => true
  | _ => false

/-- The count of failures starts again after it. -/
def clears : Answer → Bool
  | .accepted | .imposed _ => true
  | _ => false

end Answer

section Windows

variable {α : Type} {f : α → ℕ} {p : α → Bool} {l : List α}

/-- From an element of a window on, the window is what comes first. -/
theorem filter_eq_takeWhile
    (hp : ∀ x y z, f x ≤ f y → f y ≤ f z → p x = true → p z = true → p y = true)
    {x : α} (hx : p x = true) (hle : ∀ y ∈ l, f x ≤ f y)
    (hs : l.Pairwise fun x y => f x ≤ f y) : l.filter p = l.takeWhile p := by
  induction l with
  | nil => rfl
  | cons y l ih =>
    obtain ⟨hy, hl⟩ := List.pairwise_cons.mp hs
    by_cases hpy : p y = true
    · rw [List.filter_cons_of_pos hpy, List.takeWhile_cons_of_pos hpy,
        ih (fun z hz => hle z (List.mem_cons_of_mem _ hz)) hl]
    · rw [List.filter_cons_of_neg hpy, List.takeWhile_cons_of_neg hpy, List.filter_eq_nil_iff]
      exact fun z hz hpz => hpy (hp _ _ _ (hle y List.mem_cons_self) (hy z hz) hx hpz)

/-- **What lies in a window of a sorted list lies together.** -/
theorem exists_eq_append_filter
    (hp : ∀ x y z, f x ≤ f y → f y ≤ f z → p x = true → p z = true → p y = true)
    (hs : l.Pairwise fun x y => f x ≤ f y) : ∃ pre post, l = pre ++ l.filter p ++ post := by
  induction l with
  | nil => exact ⟨[], [], rfl⟩
  | cons x l ih =>
    obtain ⟨hx, hl⟩ := List.pairwise_cons.mp hs
    by_cases hpx : p x = true
    · refine ⟨[], l.dropWhile p, ?_⟩
      rw [List.filter_cons_of_pos hpx, filter_eq_takeWhile hp hpx hx hl, List.nil_append,
        List.cons_append, List.takeWhile_append_dropWhile]
    · obtain ⟨pre, post, he⟩ := ih hl
      refine ⟨x :: pre, post, ?_⟩
      rw [List.filter_cons_of_neg hpx, List.cons_append, List.cons_append, ← he]

end Windows

/-- What a throttle keeps. -/
structure Throttle where
  blockedUntil : Option ℕ
  failures : ℕ
  deriving DecidableEq, Repr

namespace Throttle

variable (limit duration : ℕ)

/-- The end of the block that lasts at a moment. -/
def active (t : Throttle) (now : ℕ) : Option ℕ := t.blockedUntil.filter fun stop => now < stop

/-- An attempt at a moment, which passes its check or not. -/
def attempt (t : Throttle) (now : ℕ) (passes : Bool) : Answer × Throttle :=
  match t.active now with
  | some stop => (.blocked stop, t)
  | none =>
    if passes then (.accepted, { t with failures := 0 })
    else if limit ≤ t.failures + 1 then
      (.imposed (now + duration), ⟨some (now + duration), 0⟩)
    else (.refused, { t with failures := t.failures + 1 })

/-- The runs of a throttle from the start, at non-decreasing moments: the answers with their
moments, and the throttle they leave. -/
inductive Run : List (ℕ × Answer) → Throttle → Prop
  | start : Run [] ⟨none, 0⟩
  | attempt {tr t} (now : ℕ) (passes : Bool) : Run tr t → (∀ x ∈ tr, x.1 ≤ now) →
      Run (tr ++ [(now, (t.attempt limit duration now passes).1)])
        (t.attempt limit duration now passes).2

/-- **All that an attempt can do.** -/
theorem attempt_cases (t : Throttle) (now : ℕ) (passes : Bool) :
    (∃ stop, t.blockedUntil = some stop ∧ now < stop ∧
        t.attempt limit duration now passes = (.blocked stop, t)) ∨
      ((∀ stop, t.blockedUntil = some stop → stop ≤ now) ∧
        (t.attempt limit duration now passes = (.accepted, { t with failures := 0 }) ∨
          (limit ≤ t.failures + 1 ∧ t.attempt limit duration now passes =
            (.imposed (now + duration), ⟨some (now + duration), 0⟩)) ∨
          (t.failures + 1 < limit ∧ t.attempt limit duration now passes =
            (.refused, { t with failures := t.failures + 1 })))) := by
  unfold attempt
  cases hactive : t.active now with
  | some stop =>
    obtain ⟨hb, hn⟩ : t.blockedUntil = some stop ∧ now < stop := by
      simpa [active, Option.filter_eq_some_iff] using hactive
    exact .inl ⟨stop, hb, hn, rfl⟩
  | none =>
    have hstop : ∀ stop, t.blockedUntil = some stop → stop ≤ now := by
      intro stop hb
      have hfilter : (some stop).filter (fun stop => now < stop) = none := hb ▸ hactive
      simpa using Option.filter_eq_none_iff.mp hfilter stop rfl
    refine .inr ⟨hstop, ?_⟩
    cases passes with
    | true => exact .inl rfl
    | false =>
      by_cases hl : limit ≤ t.failures + 1
      · exact .inr (.inl ⟨hl, by simp [hl]⟩)
      · exact .inr (.inr ⟨by omega, by simp [hl]⟩)

variable {limit duration}

/-- The moments of a run do not decrease. -/
theorem Run.sorted {tr : List (ℕ × Answer)} {t : Throttle} (h : Run limit duration tr t) :
    tr.Pairwise fun x y => x.1 ≤ y.1 := by
  induction h with
  | start => exact List.Pairwise.nil
  | attempt now passes _ hle ih =>
    refine List.pairwise_append.mpr ⟨ih, List.pairwise_singleton _ _, ?_⟩
    intro x hx y hy
    obtain rfl := List.mem_singleton.mp hy
    exact hle x hx

/-- Fewer failures than the limit are kept. -/
theorem Run.failures_lt {tr : List (ℕ × Answer)} {t : Throttle} (hl : 0 < limit)
    (h : Run limit duration tr t) : t.failures < limit := by
  induction h with
  | start => exact hl
  | @attempt tr t now passes _ _ ih =>
    obtain ⟨stop, -, -, he⟩ | ⟨-, he | ⟨-, he⟩ | ⟨hlt, he⟩⟩ :=
      attempt_cases limit duration t now passes
    · rw [he]; exact ih
    · rw [he]; exact hl
    · rw [he]; exact hl
    · rw [he]; exact hlt

/-- While a block lasts no failure is counted. -/
theorem Run.failures_eq_zero {tr : List (ℕ × Answer)} {t : Throttle}
    (h : Run limit duration tr t) {stop : ℕ} (hb : t.blockedUntil = some stop)
    (hlt : ∀ x ∈ tr, x.1 < stop) : t.failures = 0 := by
  induction h with
  | start => rfl
  | @attempt tr t now passes hrun hle ih =>
    have hnow : now < stop := hlt _ (List.mem_append_right _ (List.mem_singleton_self _))
    have hlt' : ∀ x ∈ tr, x.1 < stop := fun x hx => hlt x (List.mem_append_left _ hx)
    obtain ⟨_, -, -, hc⟩ | ⟨hstop, hc | ⟨-, hc⟩ | ⟨-, hc⟩⟩ :=
      attempt_cases limit duration t now passes
    · rw [hc] at hb ⊢
      exact ih hb hlt'
    · rw [hc]
    · rw [hc]
    · rw [hc] at hb
      exact absurd hnow (Nat.not_lt.mpr (hstop stop hb))

/-- A block that was imposed is kept to its end: until then every attempt is answered with
it, and it is either the one that is kept now, or its end has passed. -/
theorem Run.blocked {tr : List (ℕ × Answer)} {t : Throttle} (h : Run limit duration tr t)
    {pre post : List (ℕ × Answer)} {now stop : ℕ} (he : tr = pre ++ (now, .imposed stop) :: post) :
    stop = now + duration ∧ (∀ x ∈ post, x.1 < stop → x.2 = .blocked stop) ∧
      (t.blockedUntil = some stop ∨ ∃ x ∈ post, stop ≤ x.1) := by
  induction h generalizing post with
  | start => simp at he
  | @attempt tr t now' passes hrun hle ih =>
    rcases List.eq_nil_or_concat post with rfl | ⟨post, x, rfl⟩
    · -- the block is imposed by this very attempt
      obtain ⟨-, hx⟩ := List.append_inj' he rfl
      obtain ⟨rfl, hanswer⟩ := Prod.mk.inj (List.singleton_inj.mp hx)
      obtain ⟨_, -, -, hc⟩ | ⟨-, hc | ⟨-, hc⟩ | ⟨-, hc⟩⟩ :=
        attempt_cases limit duration t now' passes
      · rw [hc] at hanswer; cases hanswer
      · rw [hc] at hanswer; cases hanswer
      · rw [hc] at hanswer ⊢
        cases hanswer
        exact ⟨rfl, by simp, .inl rfl⟩
      · rw [hc] at hanswer; cases hanswer
    · rw [List.concat_eq_append, ← List.cons_append, ← List.append_assoc] at he
      obtain ⟨htr, hx⟩ := List.append_inj' he rfl
      obtain ⟨hstop, hpost, hkept⟩ := ih htr
      obtain rfl := List.singleton_inj.mp hx
      have hnew : t.blockedUntil = some stop ∧ now' < stop ∨ stop ≤ now' := by
        rcases hkept with hkept | ⟨y, hy, hle'⟩
        · exact (Nat.lt_or_ge now' stop).imp_left fun hlt => ⟨hkept, hlt⟩
        · have hmem : y ∈ tr := htr ▸ List.mem_append_right _ (List.mem_cons_of_mem _ hy)
          exact .inr (hle'.trans (hle y hmem))
      rcases hnew with ⟨hkept, hlt⟩ | hge
      · have hactive : t.active now' = some stop := by
          rw [active, hkept]
          exact Option.filter_some_pos (decide_eq_true hlt)
        have hc : t.attempt limit duration now' passes = (.blocked stop, t) := by
          rw [Throttle.attempt, hactive]
        rw [hc, List.concat_eq_append]
        refine ⟨hstop, fun x hx hxt => ?_, .inl hkept⟩
        rcases List.mem_append.mp hx with hx | hx
        · exact hpost x hx hxt
        · rw [List.mem_singleton.mp hx]
      · rw [List.concat_eq_append]
        refine ⟨hstop, fun x hx hxt => ?_,
          .inr ⟨_, List.mem_append_right _ (List.mem_singleton_self _), hge⟩⟩
        rcases List.mem_append.mp hx with hx | hx
        · exact hpost x hx hxt
        · rw [List.mem_singleton.mp hx] at hxt
          exact absurd hxt (Nat.not_lt.mpr hge)

/-- The failures since the last answer that clears are counted. -/
theorem Run.countP_le_failures {tr : List (ℕ × Answer)} {t : Throttle}
    (h : Run limit duration tr t) {pre mid : List (ℕ × Answer)} (he : tr = pre ++ mid)
    (hmid : ∀ x ∈ mid, x.2.clears = false) : mid.countP (fun x => x.2.fails) ≤ t.failures := by
  induction h generalizing mid with
  | start =>
    obtain ⟨-, rfl⟩ := List.append_eq_nil_iff.mp he.symm
    exact Nat.zero_le _
  | @attempt tr t now passes hrun hle ih =>
    rcases List.eq_nil_or_concat mid with rfl | ⟨mid, x, rfl⟩
    · exact Nat.zero_le _
    · rw [List.concat_eq_append, ← List.append_assoc] at he
      rw [List.concat_eq_append] at hmid ⊢
      obtain ⟨htr, hx⟩ := List.append_inj' he rfl
      obtain rfl := List.singleton_inj.mp hx
      have hcount := ih htr fun x hx => hmid x (List.mem_append_left _ hx)
      have hclears := hmid _ (List.mem_append_right _ (List.mem_singleton_self _))
      rw [List.countP_append, List.countP_singleton]
      obtain ⟨_, -, -, hc⟩ | ⟨-, hc | ⟨-, hc⟩ | ⟨-, hc⟩⟩ :=
        attempt_cases limit duration t now passes
      · rw [hc]; simpa [Answer.fails] using hcount
      · rw [hc] at hclears; cases hclears
      · rw [hc] at hclears; cases hclears
      · rw [hc]; simpa [Answer.fails] using hcount

/-- What held of a run holds of the part of it that a trace begins with. -/
theorem Run.of_append {tr tr' : List (ℕ × Answer)} {t : Throttle}
    (h : Run limit duration (tr ++ tr') t) : ∃ t', Run limit duration tr t' := by
  induction tr' using List.reverseRecOn generalizing t with
  | nil => exact ⟨t, by simpa using h⟩
  | append_singleton tr' x ih =>
    rw [← List.append_assoc] at h
    generalize htrace : tr ++ tr' ++ [x] = trace at h
    cases h with
    | start => simp at htrace
    | attempt now passes hrun _ =>
      obtain ⟨rfl, -⟩ := List.append_inj' htrace rfl
      exact ih hrun

/-- A block that is kept was imposed. -/
theorem Run.imposed {tr : List (ℕ × Answer)} {t : Throttle} (h : Run limit duration tr t)
    {stop : ℕ} (hb : t.blockedUntil = some stop) : ∃ x ∈ tr, x.2 = .imposed stop := by
  induction h with
  | start => cases hb
  | @attempt tr t now passes hrun hle ih =>
    have hkept (hb : t.blockedUntil = some stop) :
        ∃ x ∈ tr ++ [(now, (t.attempt limit duration now passes).1)], x.2 = .imposed stop := by
      obtain ⟨x, hx, hstop⟩ := ih hb
      exact ⟨x, List.mem_append_left _ hx, hstop⟩
    obtain ⟨_, -, -, hc⟩ | ⟨-, hc | ⟨-, hc⟩ | ⟨-, hc⟩⟩ :=
      attempt_cases limit duration t now passes
    · rw [hc] at hb; exact hkept hb
    · rw [hc] at hb; exact hkept hb
    · rw [hc] at hb ⊢
      cases hb
      exact ⟨_, List.mem_append_right _ (List.mem_singleton_self _), rfl⟩
    · rw [hc] at hb; exact hkept hb

/-- An attempt is answered with a block only while one that was imposed lasts. -/
theorem Run.imposed_of_blocked {tr : List (ℕ × Answer)} {t : Throttle}
    (h : Run limit duration tr t) {pre post : List (ℕ × Answer)} {now stop : ℕ}
    (he : tr = pre ++ (now, .blocked stop) :: post) :
    now < stop ∧ ∃ x ∈ pre, x.2 = .imposed stop := by
  have he' : tr = (pre ++ [(now, .blocked stop)]) ++ post := by simp [he]
  obtain ⟨t', hrun⟩ := Run.of_append (he' ▸ h)
  generalize htrace : pre ++ [(now, Answer.blocked stop)] = trace at hrun
  cases hrun with
  | start => simp at htrace
  | @attempt tr t now' passes hrun _ =>
    obtain ⟨rfl, hx⟩ := List.append_inj' htrace rfl
    obtain ⟨rfl, hanswer⟩ := Prod.mk.inj (List.singleton_inj.mp hx)
    obtain ⟨stop', hb, hlt, hc⟩ | ⟨-, hc | ⟨-, hc⟩ | ⟨-, hc⟩⟩ :=
      attempt_cases limit duration t now passes
    · rw [hc] at hanswer
      cases hanswer
      exact ⟨hlt, hrun.imposed hb⟩
    · rw [hc] at hanswer; cases hanswer
    · rw [hc] at hanswer; cases hanswer
    · rw [hc] at hanswer; cases hanswer

/-- **Between two answers that clear, fewer than the limit fail.** -/
theorem Run.countP_lt {tr : List (ℕ × Answer)} {t : Throttle} (hl : 0 < limit)
    (h : Run limit duration tr t) {pre mid post : List (ℕ × Answer)}
    (he : tr = pre ++ mid ++ post) (hmid : ∀ x ∈ mid, x.2.clears = false) :
    mid.countP (fun x => x.2.fails) < limit := by
  obtain ⟨t', hrun⟩ := Run.of_append (he ▸ h)
  exact (hrun.countP_le_failures rfl hmid).trans_lt (hrun.failures_lt hl)

/-- **In a stretch shorter than a block in which nothing is accepted, at most the limit
fail.** -/
theorem Run.countP_le {tr : List (ℕ × Answer)} {t : Throttle} (hl : 0 < limit)
    (h : Run limit duration tr t) {pre mid post : List (ℕ × Answer)}
    (he : tr = pre ++ mid ++ post) (hnone : ∀ x ∈ mid, x.2 ≠ .accepted)
    (hshort : ∀ x ∈ mid, ∀ y ∈ mid, y.1 < x.1 + duration) :
    mid.countP (fun x => x.2.fails) ≤ limit := by
  by_cases hany : ∃ x ∈ mid, x.2.clears = true
  · -- cut at the first block: few fail before it, and none after
    obtain ⟨x, hx, hxc⟩ := hany
    obtain ⟨⟨now, answer⟩, before, after, hbefore, hclears, rfl, -⟩ :=
      @List.exists_of_eraseP _ (fun x : ℕ × Answer => x.2.clears) _ _ hx hxc
    have hmem : (now, answer) ∈ before ++ (now, answer) :: after :=
      List.mem_append_right _ List.mem_cons_self
    obtain ⟨stop, rfl⟩ : ∃ stop, answer = .imposed stop := by
      cases answer with
      | imposed stop => exact ⟨stop, rfl⟩
      | accepted => exact absurd rfl (hnone _ hmem)
      | blocked stop => cases hclears
      | refused => cases hclears
    have hlt : before.countP (fun x => x.2.fails) < limit := by
      have he' : tr = pre ++ before ++ ((now, .imposed stop) :: after ++ post) := by simp [he]
      exact h.countP_lt hl he' fun x hx => by simpa using hbefore x hx
    have he' : tr = (pre ++ before) ++ (now, .imposed stop) :: (after ++ post) := by simp [he]
    obtain ⟨hstop, hafter, -⟩ := h.blocked he'
    have hzero : after.countP (fun x => x.2.fails) = 0 := by
      refine List.countP_eq_zero.mpr fun y hy => ?_
      have hy' : y.1 < stop :=
        hstop ▸ hshort _ hmem y (List.mem_append_right _ (List.mem_cons_of_mem _ hy))
      rw [hafter y (List.mem_append_left _ hy) hy']
      exact Bool.false_ne_true
    rw [List.countP_append, List.countP_cons_of_pos rfl, hzero]
    omega
  · have hmid : ∀ x ∈ mid, x.2.clears = false := fun x hx => by
      simpa using fun hc => hany ⟨x, hx, hc⟩
    exact (h.countP_lt hl he hmid).le

/-- **In a window shorter than a block in which nothing is accepted, at most the limit
fail.** -/
theorem Run.countP_window_le {tr : List (ℕ × Answer)} {t : Throttle} (hl : 0 < limit)
    (h : Run limit duration tr t) {w : ℕ → Bool}
    (hw : ∀ a b c, a ≤ b → b ≤ c → w a = true → w c = true → w b = true)
    (hshort : ∀ a b, w a = true → w b = true → b < a + duration)
    (hnone : ∀ x ∈ tr, w x.1 = true → x.2 ≠ .accepted) :
    tr.countP (fun x => w x.1 && x.2.fails) ≤ limit := by
  obtain ⟨pre, post, he⟩ := exists_eq_append_filter
    (fun x y z hxy hyz => hw x.1 y.1 z.1 hxy hyz) h.sorted
  have hcount := h.countP_le hl he
    (fun x hx => hnone x (List.mem_filter.mp hx).1 (List.mem_filter.mp hx).2)
    fun x hx y hy => hshort _ _ (List.mem_filter.mp hx).2 (List.mem_filter.mp hy).2
  rw [List.countP_filter] at hcount
  simpa only [Bool.and_comm] using hcount

end Throttle

end Limits
