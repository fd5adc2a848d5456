/-
# Computations that may raise

What a computation in `Except` yields, from the parts it is made of.
-/

import Mathlib.Data.List.Basic
import Mathlib.Logic.Basic

namespace PalworldManager

/-- A computation after another yields a value only if both do. -/
theorem except_bind_eq_ok {ε α β : Type} {x : Except ε α} {f : α → Except ε β} {b : β} :
    (x >>= f) = .ok b ↔ ∃ a, x = .ok a ∧ f a = .ok b := by
  cases x <;> simp [Bind.bind, Except.bind]

/-- What is mapped and returned was returned before. -/
theorem except_map_eq_ok {ε α β : Type} {x : Except ε α} {f : α → β} {b : β} :
    x.map f = .ok b ↔ ∃ a, x = .ok a ∧ f a = b := by
  cases x <;> simp [Except.map]

/-- `if p: raise e`. -/
def refuseIf {ε : Type} (p : Prop) [Decidable p] (e : ε) : Except ε Unit :=
  if p then .error e else .ok ()

/-- What is not refused meets the condition. -/
theorem refuseIf_eq_ok {ε : Type} {p : Prop} [Decidable p] {e : ε} {u : Unit} :
    refuseIf p e = .ok u ↔ ¬p := by
  by_cases h : p <;> simp [refuseIf, h]

/-- What is evaluated to know that a computation yields some value. -/
theorem exists_ok {ε α : Type} {x : Except ε α} {p : α → Bool}
    (h : x.toOption.any p = true) : ∃ a, x = .ok a ∧ p a = true := by
  cases x with
  | error e => cases h
  | ok a => exact ⟨a, rfl, h⟩

/-- A check that an option passes names what is in it. -/
theorem exists_some {α : Type} {x : Option α} {p : α → Bool} (h : x.any p = true) :
    ∃ a, x = some a ∧ p a = true := by
  cases x with
  | none => cases h
  | some a => exact ⟨a, rfl, h⟩

section Each

variable {ε α β : Type}

/-- What is done with an option, if there is something in it. -/
theorem option_mapM_eq_ok {o : Option α} {g : α → Except ε β} {r : Option β} :
    o.mapM g = .ok r ↔ (o = none ∧ r = none) ∨ ∃ a b, o = some a ∧ g a = .ok b ∧ r = some b := by
  cases o with
  | none => simp [pure, Except.pure, eq_comm]
  | some a =>
    simp only [Option.mapM_some, Option.some.injEq, reduceCtorEq, false_and, false_or]
    cases hg : g a <;> simp [Functor.map, Except.map, hg, eq_comm]

/-- What a computation for each element of a list yields. -/
theorem list_mapM_cons_eq_ok {g : α → Except ε β} {a : α} {l : List α}
    {bs : List β} : (a :: l).mapM g = .ok bs ↔
      ∃ b, g a = .ok b ∧ ∃ bs', l.mapM g = .ok bs' ∧ bs = b :: bs' := by
  rw [List.mapM_cons]
  simp only [except_bind_eq_ok]
  constructor
  · rintro ⟨b, hb, bs', hbs', ⟨⟩⟩
    exact ⟨b, hb, bs', hbs', rfl⟩
  · rintro ⟨b, hb, bs', hbs', rfl⟩
    exact ⟨b, hb, bs', hbs', rfl⟩

/-- What is done with every element is done if it can be with each. -/
theorem list_mapM_isOk {g : α → Except ε β} {l : List α} :
    (∃ bs, l.mapM g = .ok bs) ↔ ∀ a ∈ l, ∃ b, g a = .ok b := by
  induction l with
  | nil => exact iff_of_true ⟨[], rfl⟩ nofun
  | cons a l ih =>
    rw [List.forall_mem_cons, ← ih]
    simp only [list_mapM_cons_eq_ok]
    constructor
    · rintro ⟨_, b, hb, bs, hbs, -⟩
      exact ⟨⟨b, hb⟩, bs, hbs⟩
    · rintro ⟨⟨b, hb⟩, bs, hbs⟩
      exact ⟨_, b, hb, bs, hbs, rfl⟩

/-- There are as many results as elements. -/
theorem length_of_list_mapM {g : α → Except ε β} {l : List α} {bs : List β}
    (h : l.mapM g = .ok bs) : bs.length = l.length := by
  induction l generalizing bs with
  | nil =>
    cases h
    rfl
  | cons a l ih =>
    obtain ⟨b, -, bs', hbs', rfl⟩ := list_mapM_cons_eq_ok.mp h
    rw [List.length_cons, ih hbs', List.length_cons]

/-- The results of two lists, one after the other. -/
theorem list_mapM_append {g : α → Except ε β} {l l' : List α} {bs bs' : List β}
    (h : l.mapM g = .ok bs) (h' : l'.mapM g = .ok bs') : (l ++ l').mapM g = .ok (bs ++ bs') := by
  rw [List.mapM_append, h, h']
  rfl

end Each

end PalworldManager
