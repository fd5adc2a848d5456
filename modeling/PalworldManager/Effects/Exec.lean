/-
# Functions that raise

The bodies of the program under study are functions with local variables that
may raise an exception at any call.  `Exec` is that: a program of atomic steps
(`PalworldManager.Effects.Prog`) that ends with a value or an exception, and in
either case with the local variables as they stood, because a handler sees what
the body had assigned before it raised.

`Exec.wp` is its weakest precondition, with one postcondition for a normal end
and one for an exception.  Each construct has an equation (`wp_bind`,
`wp_tryCatch`, `wp_ensuring`, …), so that the precondition of a body is computed
by rewriting along its text.  `Exec.Keeps` is the companion for what each step
does from any state, with one closure rule for each construct, and `wp_keeps`
turns a step property into an invariant of the body.  `wp` is irreducible from
there on: a body is not to be run by unification.
-/

import PalworldManager.Effects.Prog

namespace Effects

/-- A function body: from the local variables to a program that ends with a
value or an exception, and with the local variables. -/
def Exec (σ Λ C : Type) (ρ : C → Type) (ε L α : Type) : Type 1 :=
  L → Prog σ Λ C ρ (Except ε α × L)

namespace Exec

variable {σ Λ C : Type} {ρ : C → Type} {ε L L' α β : Type}

/-- Return a value. -/
def ret (a : α) : Exec σ Λ C ρ ε L α := fun ℓ => .ret (.ok a, ℓ)

/-- Raise an exception. -/
def raise (e : ε) : Exec σ Λ C ρ ε L α := fun ℓ => .ret (.error e, ℓ)

/-- One statement after another; an exception skips the second. -/
def bind (x : Exec σ Λ C ρ ε L α) (f : α → Exec σ Λ C ρ ε L β) : Exec σ Λ C ρ ε L β :=
  fun ℓ => (x ℓ).bind fun
    | (.ok a, ℓ) => f a ℓ
    | (.error e, ℓ) => .ret (.error e, ℓ)

instance : Monad (Exec σ Λ C ρ ε L) where
  pure := ret
  bind := bind

/-- `try: x except e: h e`; what the handler does not handle it raises again. -/
def tryCatch (x : Exec σ Λ C ρ ε L α) (h : ε → Exec σ Λ C ρ ε L α) : Exec σ Λ C ρ ε L α :=
  fun ℓ => (x ℓ).bind fun
    | (.ok a, ℓ) => .ret (.ok a, ℓ)
    | (.error e, ℓ) => h e ℓ

/-- `try: x finally: y`; an exception of `y` takes the place of the outcome of
`x`. -/
def ensuring (x : Exec σ Λ C ρ ε L α) (y : Exec σ Λ C ρ ε L Unit) : Exec σ Λ C ρ ε L α :=
  fun ℓ => (x ℓ).bind fun (r, ℓ) => (y ℓ).bind fun
    | (.ok _, ℓ) => .ret (r, ℓ)
    | (.error e, ℓ) => .ret (.error e, ℓ)

/-- Put a question. -/
def ask (c : C) : Exec σ Λ C ρ ε L (ρ c) := fun ℓ => .ask c fun r => .ret (.ok r, ℓ)

/-- One transaction. -/
def tx (f : σ → β × σ) (label : β → Λ) : Exec σ Λ C ρ ε L β :=
  fun ℓ => .tx f label fun b => .ret (.ok b, ℓ)

/-- What a pure computation yields or raises. -/
def ofExcept : Except ε α → Exec σ Λ C ρ ε L α
  | .ok a => ret a
  | .error e => raise e

/-- Raise `e` if `p`. -/
def raiseIf (p : Prop) [Decidable p] (e : ε) : Exec σ Λ C ρ ε L Unit :=
  if p then raise e else ret ()

/-- Read the local variables. -/
def locals : Exec σ Λ C ρ ε L L := fun ℓ => .ret (.ok ℓ, ℓ)

/-- Assign to the local variables. -/
def assign (g : L → L) : Exec σ Λ C ρ ε L Unit := fun ℓ => .ret (.ok (), g ℓ)

/-- Call a function that has local variables of its own. -/
def scope (ℓ' : L') (x : Exec σ Λ C ρ ε L' α) : Exec σ Λ C ρ ε L α :=
  fun ℓ => (x ℓ').bind fun (r, _) => .ret (r, ℓ)

section Wp

variable {R : σ → σ → Prop} {G : σ → List (Event Λ C ρ) → Event Λ C ρ → σ → Prop}
  {Q Q' : α → L → σ → List (Event Λ C ρ) → Prop} {E E' : ε → L → σ → List (Event Λ C ρ) → Prop}
  {ℓ : L} {s : σ} {tr : List (Event Λ C ρ)}

/-- Where a body may end: `Q` for a value, `E` for an exception. -/
def outcome (Q : α → L → σ → List (Event Λ C ρ) → Prop)
    (E : ε → L → σ → List (Event Λ C ρ) → Prop) :
    Except ε α × L → σ → List (Event Λ C ρ) → Prop
  | (.ok a, ℓ) => Q a ℓ
  | (.error e, ℓ) => E e ℓ

/-- The weakest precondition of a body. -/
def wp (R : σ → σ → Prop) (G : σ → List (Event Λ C ρ) → Event Λ C ρ → σ → Prop)
    (x : Exec σ Λ C ρ ε L α) (Q : α → L → σ → List (Event Λ C ρ) → Prop)
    (E : ε → L → σ → List (Event Λ C ρ) → Prop) (ℓ : L) (s : σ)
    (tr : List (Event Λ C ρ)) : Prop :=
  (x ℓ).Safe R G (outcome Q E) s tr

/-- A value is returned as it is. -/
@[simp]
theorem wp_pure (a : α) :
    wp R G (pure a : Exec σ Λ C ρ ε L α) Q E ℓ s tr ↔ Q a ℓ s tr := Iff.rfl

/-- The same, of `ret`. -/
@[simp]
theorem wp_ret (a : α) :
    wp R G (ret a : Exec σ Λ C ρ ε L α) Q E ℓ s tr ↔ Q a ℓ s tr := Iff.rfl

/-- An exception is raised as it is. -/
@[simp]
theorem wp_raise (e : ε) :
    wp R G (raise e : Exec σ Λ C ρ ε L α) Q E ℓ s tr ↔ E e ℓ s tr := Iff.rfl

/-- **The rule of a call**: the others may have changed the state by then, and every answer
counts. -/
@[simp]
theorem wp_ask (c : C) {Q : ρ c → L → σ → List (Event Λ C ρ) → Prop} :
    wp R G (ask c : Exec σ Λ C ρ ε L (ρ c)) Q E ℓ s tr ↔
      ∀ s₁, R s s₁ → ∀ r, G s₁ tr (.ask c r) s₁ ∧ Q r ℓ s₁ (tr ++ [.ask c r]) := Iff.rfl

/-- **The rule of a transaction**: the others may have changed the state before it. -/
@[simp]
theorem wp_tx (f : σ → α × σ) (label : α → Λ) :
    wp R G (tx f label : Exec σ Λ C ρ ε L α) Q E ℓ s tr ↔
      ∀ s₁, R s s₁ → G s₁ tr (.tx (label (f s₁).1)) (f s₁).2 ∧
        Q (f s₁).1 ℓ (f s₁).2 (tr ++ [.tx (label (f s₁).1)]) := Iff.rfl

/-- The local variables are read. -/
@[simp]
theorem wp_locals {Q : L → L → σ → List (Event Λ C ρ) → Prop} :
    wp R G (locals : Exec σ Λ C ρ ε L L) Q E ℓ s tr ↔ Q ℓ ℓ s tr := Iff.rfl

/-- The local variables are assigned. -/
@[simp]
theorem wp_assign (g : L → L) {Q : Unit → L → σ → List (Event Λ C ρ) → Prop} :
    wp R G (assign g : Exec σ Λ C ρ ε L Unit) Q E ℓ s tr ↔ Q () (g ℓ) s tr := Iff.rfl

/-- A guard raises, or lets through. -/
@[simp]
theorem wp_raiseIf (p : Prop) [Decidable p] (e : ε) {Q : Unit → L → σ → List (Event Λ C ρ) → Prop} :
    wp R G (raiseIf p e : Exec σ Λ C ρ ε L Unit) Q E ℓ s tr ↔
      (p → E e ℓ s tr) ∧ (¬p → Q () ℓ s tr) := by
  by_cases h : p <;> simp [raiseIf, h]

/-- What was computed is returned or raised. -/
theorem wp_ofExcept (r : Except ε α) :
    wp R G (ofExcept r : Exec σ Λ C ρ ε L α) Q E ℓ s tr ↔
      (∀ a, r = .ok a → Q a ℓ s tr) ∧ ∀ e, r = .error e → E e ℓ s tr := by
  cases r <;> simp [ofExcept]

/-- What was computed to a value is returned. -/
@[simp]
theorem wp_ofExcept_ok (a : α) :
    wp R G (ofExcept (.ok a) : Exec σ Λ C ρ ε L α) Q E ℓ s tr ↔ Q a ℓ s tr := Iff.rfl

/-- What was computed to an exception is raised. -/
@[simp]
theorem wp_ofExcept_error (e : ε) :
    wp R G (ofExcept (.error e) : Exec σ Λ C ρ ε L α) Q E ℓ s tr ↔ E e ℓ s tr := Iff.rfl

/-- **The rule of sequence.** -/
@[simp]
theorem wp_bind (x : Exec σ Λ C ρ ε L α) (f : α → Exec σ Λ C ρ ε L β)
    {Q : β → L → σ → List (Event Λ C ρ) → Prop} :
    wp R G (x >>= f) Q E ℓ s tr ↔ wp R G x (fun a => wp R G (f a) Q E) E ℓ s tr := by
  refine (Prog.safe_bind _ _ _ _ _).trans (iff_of_eq ?_)
  congr 1
  funext ⟨r, ℓ'⟩
  cases r <;> rfl

/-- **The rule of the handler.** -/
@[simp]
theorem wp_tryCatch (x : Exec σ Λ C ρ ε L α) (h : ε → Exec σ Λ C ρ ε L α) :
    wp R G (tryCatch x h) Q E ℓ s tr ↔ wp R G x Q (fun e => wp R G (h e) Q E) ℓ s tr := by
  refine (Prog.safe_bind _ _ _ _ _).trans (iff_of_eq ?_)
  congr 1
  funext ⟨r, ℓ'⟩
  cases r <;> rfl

/-- **The rule of `finally`.** -/
@[simp]
theorem wp_ensuring (x : Exec σ Λ C ρ ε L α) (y : Exec σ Λ C ρ ε L Unit) :
    wp R G (ensuring x y) Q E ℓ s tr ↔
      wp R G x (fun a => wp R G y (fun _ => Q a) E) (fun e => wp R G y (fun _ => E e) E)
        ℓ s tr := by
  refine (Prog.safe_bind _ _ _ _ _).trans (iff_of_eq ?_)
  congr 1
  funext ⟨r, ℓ'⟩ s' tr'
  refine propext ((Prog.safe_bind _ _ _ _ _).trans ?_)
  cases r <;> refine iff_of_eq ?_ <;>
    · simp only [outcome, wp]
      congr 1
      funext ⟨q, ℓ''⟩
      cases q <;> rfl

/-- **The rule of the call**: the callee's variables are gone when it returns. -/
@[simp]
theorem wp_scope (ℓ' : L') (x : Exec σ Λ C ρ ε L' α) :
    wp R G (scope ℓ' x) Q E ℓ s tr ↔
      wp R G x (fun a _ => Q a ℓ) (fun e _ => E e ℓ) ℓ' s tr := by
  refine (Prog.safe_bind _ _ _ _ _).trans (iff_of_eq ?_)
  congr 1
  funext ⟨r, ℓ''⟩
  cases r <;> rfl

/-- What the weakest precondition says of the program itself. -/
theorem safe_of_wp {x : Exec σ Λ C ρ ε L α} (h : wp R G x Q E ℓ s tr) :
    (x ℓ).Safe R G (outcome Q E) s tr := h

/-- A conditional, by its cases. -/
theorem wp_ite (p : Prop) [Decidable p] (x y : Exec σ Λ C ρ ε L α) :
    wp R G (if p then x else y) Q E ℓ s tr ↔
      (p → wp R G x Q E ℓ s tr) ∧ (¬p → wp R G y Q E ℓ s tr) := by
  by_cases h : p <;> simp [h]

/-- **The rule of consequence.** -/
theorem wp_mono {x : Exec σ Λ C ρ ε L α} (h : wp R G x Q E ℓ s tr)
    (hQ : ∀ a ℓ s tr, Q a ℓ s tr → Q' a ℓ s tr)
    (hE : ∀ e ℓ s tr, E e ℓ s tr → E' e ℓ s tr) : wp R G x Q' E' ℓ s tr :=
  Prog.Safe.mono h fun
    | (.ok a, ℓ), s, tr => hQ a ℓ s tr
    | (.error e, ℓ), s, tr => hE e ℓ s tr

/-- A body that meets two specifications meets both at once. -/
theorem wp_and {G' : σ → List (Event Λ C ρ) → Event Λ C ρ → σ → Prop} {x : Exec σ Λ C ρ ε L α}
    (h : wp R G x Q E ℓ s tr) (h' : wp R G' x Q' E' ℓ s tr) :
    wp R (fun s tr e s' => G s tr e s' ∧ G' s tr e s') x
      (fun a ℓ s tr => Q a ℓ s tr ∧ Q' a ℓ s tr) (fun e ℓ s tr => E e ℓ s tr ∧ E' e ℓ s tr)
      ℓ s tr := by
  refine Prog.Safe.mono (Prog.Safe.and h h') fun
    | (.ok a, ℓ), s, tr, hq => hq
    | (.error e, ℓ), s, tr, hq => hq

/-- A body is safe where the past alone settles what is asked of it. -/
theorem wp_of_past {x : Exec σ Λ C ρ ε L α} {B : List (Event Λ C ρ) → Prop}
    (hB : ∀ tr e, B tr → B (tr ++ [e])) (hG : ∀ s tr e s', B tr → G s tr e s')
    (hQ : ∀ a ℓ s tr, B tr → Q a ℓ s tr) (hE : ∀ e ℓ s tr, B tr → E e ℓ s tr) (h : B tr) :
    wp R G x Q E ℓ s tr :=
  (Prog.safe_of_past hB hG h).mono fun
    | (.ok a, ℓ), s, tr => hQ a ℓ s tr
    | (.error e, ℓ), s, tr => hE e ℓ s tr

/-- A weaker guarantee. -/
theorem wp_guarantee {G' : σ → List (Event Λ C ρ) → Event Λ C ρ → σ → Prop}
    {x : Exec σ Λ C ρ ε L α} (h : wp R G x Q E ℓ s tr)
    (hG : ∀ s tr e s', G s tr e s' → G' s tr e s') : wp R G' x Q E ℓ s tr :=
  Prog.Safe.guarantee h hG

/-- Where a body returns, its steps since the start are those of a run that ended there. -/
theorem wp_completes {x : Exec σ Λ C ρ ε L α} (h : wp R G x Q E ℓ s tr) :
    wp R G x (fun a ℓ' s' tr' => Q a ℓ' s' tr' ∧ ∃ steps, tr' = tr ++ steps ∧
      Prog.Run R s (x ℓ) steps s' (.ret (.ok a, ℓ'))) E ℓ s tr :=
  (Prog.Safe.completes h).mono fun
    | (.ok _, _), _, _, hq => hq
    | (.error _, _), _, _, hq => hq.1

/-- The questions of one statement after another. -/
theorem poised_bind {A : List (Event Λ C ρ) → C → Prop} {x : Exec σ Λ C ρ ε L α}
    {f : α → Exec σ Λ C ρ ε L β} (hx : (x ℓ).Poised R A s tr) (hw : wp R G x Q E ℓ s tr)
    (hf : ∀ a ℓ s tr, Q a ℓ s tr → (f a ℓ).Poised R A s tr) :
    ((x >>= f) ℓ).Poised R A s tr :=
  Prog.Poised.bind hx (safe_of_wp hw) fun
    | (.ok a, ℓ), s, tr, hq => hf a ℓ s tr hq
    | (.error _, _), _, _, _ => trivial

end Wp

section Keeps

variable {P P' : σ → Event Λ C ρ → σ → Prop} {V : L → L → Prop}

/-- Every step of the body, from any state, meets `P`, and the local variables at
its end are to those at its start as `V` says: `Eq` for a body that assigns
nothing, and `anyLocals` where that does not matter. -/
structure Keeps (P : σ → Event Λ C ρ → σ → Prop) (V : L → L → Prop)
    (x : Exec σ Λ C ρ ε L α) : Prop where
  all : ∀ ℓ, (x ℓ).All P fun r => V ℓ r.2

/-- Nothing is said of the local variables. -/
def anyLocals : L → L → Prop := fun _ _ => True

instance : IsPreorder L anyLocals where
  refl _ := trivial
  trans _ _ _ _ _ := trivial

/-- What every step keeps may be said more weakly. -/
theorem Keeps.mono {x : Exec σ Λ C ρ ε L α} (hx : x.Keeps P V)
    (h : ∀ s e s', P s e s' → P' s e s') : x.Keeps P' V :=
  ⟨fun ℓ => (hx.all ℓ).mono h fun _ => id⟩

/-- Two things that every step keeps. -/
theorem Keeps.and {x : Exec σ Λ C ρ ε L α} (hx : x.Keeps P V) (hx' : x.Keeps P' V) :
    x.Keeps (fun s e s' => P s e s' ∧ P' s e s') V :=
  ⟨fun ℓ => ((hx.all ℓ).and (hx'.all ℓ)).mono (fun _ _ _ => id) fun _ => And.left⟩

/-- An assignment takes no step. -/
theorem keeps_assign (g : L → L) (h : ∀ ℓ, V ℓ (g ℓ)) :
    Keeps P V (assign g : Exec σ Λ C ρ ε L Unit) :=
  ⟨fun ℓ => h ℓ⟩

section Refl

variable [Std.Refl V]

/-- Neither does a value. -/
theorem keeps_pure (a : α) : Keeps P V (pure a : Exec σ Λ C ρ ε L α) :=
  ⟨fun ℓ => refl_of V ℓ⟩

/-- The same, of `ret`. -/
theorem keeps_ret (a : α) : Keeps P V (ret a : Exec σ Λ C ρ ε L α) := ⟨fun ℓ => refl_of V ℓ⟩

/-- Neither does an exception. -/
theorem keeps_raise (e : ε) : Keeps P V (raise e : Exec σ Λ C ρ ε L α) := ⟨fun ℓ => refl_of V ℓ⟩

/-- Neither does a look at the local variables. -/
theorem keeps_locals : Keeps P V (locals : Exec σ Λ C ρ ε L L) := ⟨fun ℓ => refl_of V ℓ⟩

/-- Neither does a guard. -/
theorem keeps_raiseIf (p : Prop) [Decidable p] (e : ε) :
    Keeps P V (raiseIf p e : Exec σ Λ C ρ ε L Unit) := by
  by_cases h : p
  · simpa only [raiseIf, h, if_true] using keeps_raise e
  · simpa only [raiseIf, h, if_false] using keeps_ret ()

/-- Neither does a computation. -/
theorem keeps_ofExcept (r : Except ε α) : Keeps P V (ofExcept r : Exec σ Λ C ρ ε L α) := by
  cases r with
  | ok a => exact keeps_ret a
  | error e => exact keeps_raise e

/-- A call keeps what each of its answers keeps. -/
theorem keeps_ask (c : C) (h : ∀ r s, P s (.ask c r) s) :
    Keeps P V (ask c : Exec σ Λ C ρ ε L (ρ c)) :=
  ⟨fun ℓ r => ⟨h r, refl_of V ℓ⟩⟩

/-- A transaction keeps what it keeps in every state. -/
theorem keeps_tx (f : σ → α × σ) (label : α → Λ)
    (h : ∀ s, P s (.tx (label (f s).1)) (f s).2) :
    Keeps P V (tx f label : Exec σ Λ C ρ ε L α) :=
  ⟨fun ℓ s => ⟨h s, refl_of V ℓ⟩⟩

/-- A function keeps what its body keeps, and touches no local variable of its caller. -/
theorem keeps_scope {ℓ' : L'} {x : Exec σ Λ C ρ ε L' α} (hx : x.Keeps P anyLocals) :
    (scope ℓ' x : Exec σ Λ C ρ ε L α).Keeps P V :=
  ⟨fun ℓ => Prog.all_bind (hx.all ℓ') fun _ _ => refl_of V ℓ⟩

end Refl

section Trans

variable [IsTrans L V]

/-- Two statements keep what both do. -/
theorem keeps_bind {x : Exec σ Λ C ρ ε L α} {f : α → Exec σ Λ C ρ ε L β} (hx : x.Keeps P V)
    (hf : ∀ a, (f a).Keeps P V) : (x >>= f).Keeps P V :=
  ⟨fun ℓ => Prog.all_bind (hx.all ℓ) fun
    | (.ok a, ℓ'), h => ((hf a).all ℓ').mono (fun _ _ _ => id) fun _ h' => IsTrans.trans _ _ _ h h'
    | (.error _, _), h => h⟩

/-- A body with handlers keeps what all of them do. -/
theorem keeps_tryCatch {x : Exec σ Λ C ρ ε L α} {h : ε → Exec σ Λ C ρ ε L α}
    (hx : x.Keeps P V) (hh : ∀ e, (h e).Keeps P V) : (tryCatch x h).Keeps P V :=
  ⟨fun ℓ => Prog.all_bind (hx.all ℓ) fun
    | (.ok _, _), h => h
    | (.error e, ℓ'), h => ((hh e).all ℓ').mono (fun _ _ _ => id) fun _ h' => IsTrans.trans _ _ _ h h'⟩

/-- A body with a `finally` keeps what both do. -/
theorem keeps_ensuring {x : Exec σ Λ C ρ ε L α} {y : Exec σ Λ C ρ ε L Unit}
    (hx : x.Keeps P V) (hy : y.Keeps P V) : (ensuring x y).Keeps P V :=
  ⟨fun ℓ => Prog.all_bind (hx.all ℓ) fun (_, ℓ') h => Prog.all_bind (hy.all ℓ') fun
    | (.ok _, _), h' => IsTrans.trans _ _ _ h h'
    | (.error _, _), h' => IsTrans.trans _ _ _ h h'⟩

end Trans

/-- A conditional keeps what both branches do. -/
theorem keeps_ite {p : Prop} [Decidable p] {x y : Exec σ Λ C ρ ε L α} (hx : p → x.Keeps P V)
    (hy : ¬p → y.Keeps P V) : (if p then x else y).Keeps P V := by
  by_cases h : p
  · simpa only [h, if_true] using hx h
  · simpa only [h, if_false] using hy h

/-- **The rule of invariance.** -/
theorem wp_keeps {R : σ → σ → Prop} {G : σ → List (Event Λ C ρ) → Event Λ C ρ → σ → Prop}
    {x : Exec σ Λ C ρ ε L α} {I : σ → List (Event Λ C ρ) → Prop} {ℓ : L} {s : σ}
    {tr : List (Event Λ C ρ)} (hx : x.Keeps P V)
    (hR : ∀ s s' tr, R s s' → I s tr → I s' tr)
    (hI : ∀ s tr e s', I s tr → P s e s' → I s' (tr ++ [e]) ∧ G s tr e s') (h : I s tr) :
    wp R G x (fun _ ℓ' s tr => V ℓ ℓ' ∧ I s tr) (fun _ ℓ' s tr => V ℓ ℓ' ∧ I s tr) ℓ s tr := by
  refine Prog.Safe.mono ((hx.all ℓ).safe hR hI h) fun
    | (.ok _, _), _, _, hq => hq
    | (.error _, _), _, _, hq => hq

/-- **The rule of the frame**: a statement that keeps an invariant is passed over. -/
theorem wp_keeps_bind {R : σ → σ → Prop}
    {G : σ → List (Event Λ C ρ) → Event Λ C ρ → σ → Prop} {x : Exec σ Λ C ρ ε L α}
    {f : α → Exec σ Λ C ρ ε L β} {I : σ → List (Event Λ C ρ) → Prop}
    {Q : β → L → σ → List (Event Λ C ρ) → Prop} {E : ε → L → σ → List (Event Λ C ρ) → Prop}
    {ℓ : L} {s : σ} {tr : List (Event Λ C ρ)} (hx : x.Keeps P V)
    (hR : ∀ s s' tr, R s s' → I s tr → I s' tr)
    (hI : ∀ s tr e s', I s tr → P s e s' → I s' (tr ++ [e]) ∧ G s tr e s') (h : I s tr)
    (hE : ∀ e ℓ' s tr, V ℓ ℓ' → I s tr → E e ℓ' s tr)
    (hf : ∀ a ℓ' s tr, V ℓ ℓ' → I s tr → wp R G (f a) Q E ℓ' s tr) :
    wp R G (x >>= f) Q E ℓ s tr :=
  (wp_bind x f).mpr <| wp_mono (wp_keeps hx hR hI h) (fun a ℓ' s tr h' => hf a ℓ' s tr h'.1 h'.2)
    fun e ℓ' s tr h' => hE e ℓ' s tr h'.1 h'.2

end Keeps

attribute [irreducible] wp

end Exec

end Effects
