/-
# Programs of atomic steps

A program here is a tree of two kinds of steps.  A *transaction* reads and
writes a shared state in one step that nothing can interrupt, and leaves a label
in the trace.  A *question* is put to something outside the program, which may
give any answer at all; it does not touch the state.  Between two steps other
parties may change the shared state, within a relation `R`, the *rely*.

`Prog.Safe` is the weakest precondition of such a program: every step meets a
guarantee `G`, and where the program ends a postcondition `Q` holds, whatever
is answered and whatever the other parties do within `R`.  `Run.safe` is its
soundness over runs, complete or not: it is the only place where the meaning of
a run is unfolded, and every statement about a run goes through it.

`Prog.All` is the companion for properties that need no context: each step of
the tree, taken from *any* state, meets a predicate, and so does whatever it
returns.  `All.safe` joins the two.
-/

import Mathlib.Data.Nat.Notation
import Mathlib.Order.Defs.Unbundled

namespace Effects

/-- What one step of a program leaves in the trace: the label of a transaction,
or a question together with its answer. -/
inductive Event (Λ C : Type) (ρ : C → Type) where
  | tx (l : Λ)
  | ask (c : C) (r : ρ c)

/-- A program over a state `σ`, with labels `Λ`, questions `C` and answers
`ρ c`, that returns an `α`. -/
inductive Prog (σ Λ C : Type) (ρ : C → Type) (α : Type) : Type 1 where
  | ret (a : α)
  | tx {β : Type} (f : σ → β × σ) (label : β → Λ) (k : β → Prog σ Λ C ρ α)
  | ask (c : C) (k : ρ c → Prog σ Λ C ρ α)

namespace Prog

variable {σ Λ C : Type} {ρ : C → Type} {α β : Type}

/-- Sequential composition. -/
def bind : Prog σ Λ C ρ α → (α → Prog σ Λ C ρ β) → Prog σ Λ C ρ β
  | .ret a, k => k a
  | .tx f label g, k => .tx f label fun b => (g b).bind k
  | .ask c g, k => .ask c fun r => (g r).bind k

instance : Monad (Prog σ Λ C ρ) where
  pure := .ret
  bind := bind

/-- One step of a program: the state and program before, the event, and the
state and program after. -/
inductive Step : σ → Prog σ Λ C ρ α → Event Λ C ρ → σ → Prog σ Λ C ρ α → Prop
  | tx {γ : Type} (s : σ) (f : σ → γ × σ) (label : γ → Λ) (k : γ → Prog σ Λ C ρ α) :
      Step s (.tx f label k) (.tx (label (f s).1)) (f s).2 (k (f s).1)
  | ask (s : σ) (c : C) (k : ρ c → Prog σ Λ C ρ α) (r : ρ c) :
      Step s (.ask c k) (.ask c r) s (k r)

/-- The runs of a program, complete or not, among parties that change the state
within `R`: the start, the trace of the program's own steps, and where the run
stands. -/
inductive Run (R : σ → σ → Prop) (s₀ : σ) (p₀ : Prog σ Λ C ρ α) :
    List (Event Λ C ρ) → σ → Prog σ Λ C ρ α → Prop
  | start : Run R s₀ p₀ [] s₀ p₀
  | env {tr s s' p} : Run R s₀ p₀ tr s p → R s s' → Run R s₀ p₀ tr s' p
  | step {tr s p e s' p'} : Run R s₀ p₀ tr s p → Step s p e s' p' →
      Run R s₀ p₀ (tr ++ [e]) s' p'

/-- The weakest precondition under the rely `R`, the guarantee `G` and the
postcondition `Q`.  The trace so far is an argument, so that both `G` and `Q`
may speak of what has already happened. -/
def Safe (R : σ → σ → Prop) (G : σ → List (Event Λ C ρ) → Event Λ C ρ → σ → Prop)
    (Q : α → σ → List (Event Λ C ρ) → Prop) :
    Prog σ Λ C ρ α → σ → List (Event Λ C ρ) → Prop
  | .ret a, s, tr => Q a s tr
  | .tx f label k, s, tr => ∀ s₁, R s s₁ →
      G s₁ tr (.tx (label (f s₁).1)) (f s₁).2 ∧
        (k (f s₁).1).Safe R G Q (f s₁).2 (tr ++ [.tx (label (f s₁).1)])
  | .ask c k, s, tr => ∀ s₁, R s s₁ → ∀ r,
      G s₁ tr (.ask c r) s₁ ∧ (k r).Safe R G Q s₁ (tr ++ [.ask c r])

/-- Every step of the program, from whatever state it is taken, relates the
state before, the event and the state after by `P`, and whatever the program
returns meets `T`. -/
def All (P : σ → Event Λ C ρ → σ → Prop) (T : α → Prop) : Prog σ Λ C ρ α → Prop
  | .ret a => T a
  | .tx f label k => ∀ s, P s (.tx (label (f s).1)) (f s).2 ∧ (k (f s).1).All P T
  | .ask c k => ∀ r, (∀ s, P s (.ask c r) s) ∧ (k r).All P T

section Rules

variable {R : σ → σ → Prop} {G G' : σ → List (Event Λ C ρ) → Event Λ C ρ → σ → Prop}
  {P : σ → Event Λ C ρ → σ → Prop} {T : α → Prop}

/-- **The rule of sequence.** -/
theorem safe_bind (p : Prog σ Λ C ρ α) (k : α → Prog σ Λ C ρ β)
    (Q : β → σ → List (Event Λ C ρ) → Prop) (s : σ) (tr : List (Event Λ C ρ)) :
    (p.bind k).Safe R G Q s tr ↔ p.Safe R G (fun a => (k a).Safe R G Q) s tr := by
  induction p generalizing s tr with
  | ret a => exact Iff.rfl
  | tx f label g ih => simp only [bind, Safe, ih]
  | ask c g ih => simp only [bind, Safe, ih]

/-- **The rule of consequence.** -/
theorem Safe.mono {p : Prog σ Λ C ρ α} {Q Q' : α → σ → List (Event Λ C ρ) → Prop} {s : σ}
    {tr : List (Event Λ C ρ)} (h : p.Safe R G Q s tr)
    (hQ : ∀ a s tr, Q a s tr → Q' a s tr) : p.Safe R G Q' s tr := by
  induction p generalizing s tr with
  | ret a => exact hQ a s tr h
  | tx f label k ih => exact fun s₁ h₁ => ⟨(h s₁ h₁).1, ih _ (h s₁ h₁).2⟩
  | ask c k ih => exact fun s₁ h₁ r => ⟨(h s₁ h₁ r).1, ih r (h s₁ h₁ r).2⟩

/-- Two guarantees and postconditions that hold separately hold together. -/
theorem Safe.and {p : Prog σ Λ C ρ α} {Q Q' : α → σ → List (Event Λ C ρ) → Prop} {s : σ}
    {tr : List (Event Λ C ρ)} (h : p.Safe R G Q s tr) (h' : p.Safe R G' Q' s tr) :
    p.Safe R (fun s tr e s' => G s tr e s' ∧ G' s tr e s') (fun a s tr => Q a s tr ∧ Q' a s tr)
      s tr := by
  induction p generalizing s tr with
  | ret a => exact ⟨h, h'⟩
  | tx f label k ih =>
    exact fun s₁ h₁ => ⟨⟨(h s₁ h₁).1, (h' s₁ h₁).1⟩, ih _ (h s₁ h₁).2 (h' s₁ h₁).2⟩
  | ask c k ih =>
    exact fun s₁ h₁ r => ⟨⟨(h s₁ h₁ r).1, (h' s₁ h₁ r).1⟩, ih r (h s₁ h₁ r).2 (h' s₁ h₁ r).2⟩

/-- A program is safe where nothing is asked of it. -/
theorem safe_of_forall {p : Prog σ Λ C ρ α} {Q : α → σ → List (Event Λ C ρ) → Prop} {s : σ}
    {tr : List (Event Λ C ρ)} (hG : ∀ s tr e s', G s tr e s') (hQ : ∀ a s tr, Q a s tr) :
    p.Safe R G Q s tr := by
  induction p generalizing s tr with
  | ret a => exact hQ a s tr
  | tx f label k ih => exact fun s₁ _ => ⟨hG _ _ _ _, ih _⟩
  | ask c k ih => exact fun s₁ _ r => ⟨hG _ _ _ _, ih r⟩

/-- What the past alone settles stays settled. -/
theorem safe_of_past {p : Prog σ Λ C ρ α} {B : List (Event Λ C ρ) → Prop} {s : σ}
    {tr : List (Event Λ C ρ)} (hB : ∀ tr e, B tr → B (tr ++ [e]))
    (hG : ∀ s tr e s', B tr → G s tr e s') (h : B tr) :
    p.Safe R G (fun _ _ tr => B tr) s tr := by
  induction p generalizing s tr with
  | ret a => exact h
  | tx f label k ih => exact fun s₁ _ => ⟨hG _ _ _ _ h, ih _ (hB _ _ h)⟩
  | ask c k ih => exact fun s₁ _ r => ⟨hG _ _ _ _ h, ih r (hB _ _ h)⟩

/-- A guarantee may be weakened to what it implies. -/
theorem Safe.guarantee {p : Prog σ Λ C ρ α} {Q : α → σ → List (Event Λ C ρ) → Prop} {s : σ}
    {tr : List (Event Λ C ρ)} (h : p.Safe R G Q s tr)
    (hG : ∀ s tr e s', G s tr e s' → G' s tr e s') : p.Safe R G' Q s tr := by
  induction p generalizing s tr with
  | ret a => exact h
  | tx f label k ih => exact fun s₁ h₁ => ⟨hG _ _ _ _ (h s₁ h₁).1, ih _ (h s₁ h₁).2⟩
  | ask c k ih => exact fun s₁ h₁ r => ⟨hG _ _ _ _ (h s₁ h₁ r).1, ih r (h s₁ h₁ r).2⟩

/-- What every step of a program does from any state may be added to its
guarantee. -/
theorem Safe.strengthen {p : Prog σ Λ C ρ α} {Q : α → σ → List (Event Λ C ρ) → Prop} {s : σ}
    {tr : List (Event Λ C ρ)} (h : p.Safe R G Q s tr) (hp : p.All P T) :
    p.Safe R (fun s tr e s' => G s tr e s' ∧ P s e s') Q s tr := by
  induction p generalizing s tr with
  | ret a => exact h
  | tx f label k ih =>
    exact fun s₁ h₁ => ⟨⟨(h s₁ h₁).1, (hp s₁).1⟩, ih _ (h s₁ h₁).2 (hp s₁).2⟩
  | ask c k ih =>
    exact fun s₁ h₁ r => ⟨⟨(h s₁ h₁ r).1, (hp r).1 s₁⟩, ih r (h s₁ h₁ r).2 (hp r).2⟩

/-- **The rule of invariance.**  An assertion that every step of the program and
every interference preserve holds throughout, and with it any guarantee that
the assertion and the steps give. -/
theorem All.safe {p : Prog σ Λ C ρ α} {P : σ → Event Λ C ρ → σ → Prop}
    {I : σ → List (Event Λ C ρ) → Prop} {s : σ} {tr : List (Event Λ C ρ)} (hp : p.All P T)
    (hR : ∀ s s' tr, R s s' → I s tr → I s' tr)
    (hI : ∀ s tr e s', I s tr → P s e s' → I s' (tr ++ [e]) ∧ G s tr e s') (h : I s tr) :
    p.Safe R G (fun a s tr => T a ∧ I s tr) s tr := by
  induction p generalizing s tr with
  | ret a => exact ⟨hp, h⟩
  | tx f label k ih =>
    intro s₁ h₁
    obtain ⟨hstep, hk⟩ := hp s₁
    obtain ⟨hI', hG⟩ := hI _ _ _ _ (hR _ _ _ h₁ h) hstep
    exact ⟨hG, ih _ hk hI'⟩
  | ask c k ih =>
    intro s₁ h₁ r
    obtain ⟨hstep, hk⟩ := hp r
    obtain ⟨hI', hG⟩ := hI _ _ _ _ (hR _ _ _ h₁ h) (hstep s₁)
    exact ⟨hG, ih r hk hI'⟩

/-- What the other parties do does not make a program unsafe. -/
theorem Safe.rely {p : Prog σ Λ C ρ α} {Q : α → σ → List (Event Λ C ρ) → Prop} {s s' : σ}
    {tr : List (Event Λ C ρ)} (htrans : ∀ a b c, R a b → R b c → R a c)
    (hQ : ∀ a s s' tr, R s s' → Q a s tr → Q a s' tr) (h : p.Safe R G Q s tr)
    (hs : R s s') : p.Safe R G Q s' tr := by
  cases p with
  | ret a => exact hQ a s s' tr hs h
  | tx f label k => exact fun s₁ h₁ => h s₁ (htrans _ _ _ hs h₁)
  | ask c k => exact fun s₁ h₁ => h s₁ (htrans _ _ _ hs h₁)

/-- One step of a safe program meets its guarantee and leaves a safe program. -/
theorem Safe.step {p p' : Prog σ Λ C ρ α} {Q : α → σ → List (Event Λ C ρ) → Prop} {s s' : σ}
    {tr : List (Event Λ C ρ)} {e : Event Λ C ρ} (hrefl : ∀ a, R a a)
    (h : p.Safe R G Q s tr) (hstep : Step s p e s' p') :
    G s tr e s' ∧ p'.Safe R G Q s' (tr ++ [e]) := by
  cases hstep with
  | tx => exact h s (hrefl s)
  | ask _ _ _ r => exact h s (hrefl s) r

/-- **Soundness.**  A run of a safe program, complete or not, stands at a safe
program. -/
theorem Run.safe {p₀ p : Prog σ Λ C ρ α} {Q : α → σ → List (Event Λ C ρ) → Prop} {s₀ s : σ}
    {tr₀ tr : List (Event Λ C ρ)} (hrefl : ∀ a, R a a)
    (htrans : ∀ a b c, R a b → R b c → R a c)
    (hQ : ∀ a s s' tr, R s s' → Q a s tr → Q a s' tr)
    (h : p₀.Safe R G Q s₀ tr₀) (hrun : Run R s₀ p₀ tr s p) :
    p.Safe R G Q s (tr₀ ++ tr) := by
  induction hrun with
  | start => simpa using h
  | env _ hs ih => exact ih.rely htrans hQ hs
  | step _ hstep ih =>
    rw [← List.append_assoc]
    exact (ih.step hrefl hstep).2

/-- **Every event of a run meets the guarantee**, with the trace before it as
the past it may refer to. -/
theorem Run.events {p₀ p : Prog σ Λ C ρ α} {Q : α → σ → List (Event Λ C ρ) → Prop} {s₀ s : σ}
    {tr₀ tr : List (Event Λ C ρ)} {Γ : List (Event Λ C ρ) → Event Λ C ρ → Prop}
    (hrefl : ∀ a, R a a) (htrans : ∀ a b c, R a b → R b c → R a c)
    (hQ : ∀ a s s' tr, R s s' → Q a s tr → Q a s' tr)
    (hΓ : ∀ s tr e s', G s tr e s' → Γ tr e)
    (h : p₀.Safe R G Q s₀ tr₀) (hrun : Run R s₀ p₀ tr s p) :
    ∀ pre e post, tr = pre ++ e :: post → Γ (tr₀ ++ pre) e := by
  induction hrun with
  | start => simp
  | env _ _ ih => exact ih
  | step hrun' hstep ih =>
    rename_i tr' s' p' e' _ _
    intro pre e post heq
    rcases List.eq_nil_or_concat post with rfl | ⟨post', x, rfl⟩
    · obtain ⟨rfl, he⟩ := List.append_inj' heq rfl
      obtain rfl : e' = e := by simpa using he
      exact hΓ _ _ _ _ ((hrun'.safe hrefl htrans hQ h).step hrefl hstep).1
    · rw [List.concat_eq_append, ← List.cons_append, ← List.append_assoc] at heq
      exact ih pre e post' (List.append_inj' heq rfl).1

/-- **What every step of a run establishes holds throughout it**, if it holds at the
start and the other parties leave it alone. -/
theorem Run.invariant {p₀ p : Prog σ Λ C ρ α} {Q : α → σ → List (Event Λ C ρ) → Prop} {s₀ s : σ}
    {tr₀ tr : List (Event Λ C ρ)} {I : σ → List (Event Λ C ρ) → Prop}
    (hrefl : ∀ a, R a a) (htrans : ∀ a b c, R a b → R b c → R a c)
    (hQ : ∀ a s s' tr, R s s' → Q a s tr → Q a s' tr)
    (hR : ∀ s s' tr, R s s' → I s tr → I s' tr)
    (hG : ∀ s tr e s', G s tr e s' → I s' (tr ++ [e])) (h₀ : I s₀ tr₀)
    (h : p₀.Safe R G Q s₀ tr₀) (hrun : Run R s₀ p₀ tr s p) : I s (tr₀ ++ tr) := by
  induction hrun with
  | start => simpa using h₀
  | env _ hs ih => exact hR _ _ _ hs ih
  | step hrun' hstep ih =>
    rw [← List.append_assoc]
    exact hG _ _ _ _ ((hrun'.safe hrefl htrans hQ h).step hrefl hstep).1

/-- A program whose steps meet `P` keeps meeting it as it runs. -/
theorem All.step {p p' : Prog σ Λ C ρ α} {s s' : σ} {e : Event Λ C ρ} (h : p.All P T)
    (hstep : Step s p e s' p') : P s e s' ∧ p'.All P T := by
  cases hstep with
  | tx => exact h s
  | ask _ _ _ r => exact ⟨(h r).1 s, (h r).2⟩

/-- All steps of two programs, one after the other. -/
theorem all_bind {p : Prog σ Λ C ρ α} {k : α → Prog σ Λ C ρ β} {T' : β → Prop} (hp : p.All P T)
    (hk : ∀ a, T a → (k a).All P T') : (p.bind k).All P T' := by
  induction p with
  | ret a => exact hk a hp
  | tx f label g ih => exact fun s => ⟨(hp s).1, ih _ (hp s).2⟩
  | ask c g ih => exact fun r => ⟨(hp r).1, ih r (hp r).2⟩

/-- Two things that hold of all steps. -/
theorem All.and {p : Prog σ Λ C ρ α} {P' : σ → Event Λ C ρ → σ → Prop} {T' : α → Prop}
    (hp : p.All P T) (hp' : p.All P' T') :
    p.All (fun s e s' => P s e s' ∧ P' s e s') fun a => T a ∧ T' a := by
  induction p with
  | ret a => exact ⟨hp, hp'⟩
  | tx f label k ih => exact fun s => ⟨⟨(hp s).1, (hp' s).1⟩, ih _ (hp s).2 (hp' s).2⟩
  | ask c k ih =>
    exact fun r => ⟨fun s => ⟨(hp r).1 s, (hp' r).1 s⟩, ih r (hp r).2 (hp' r).2⟩

/-- What holds of all steps may be said more weakly. -/
theorem All.mono {p : Prog σ Λ C ρ α} {P' : σ → Event Λ C ρ → σ → Prop} {T' : α → Prop}
    (hp : p.All P T) (h : ∀ s e s', P s e s' → P' s e s') (hT : ∀ a, T a → T' a) :
    p.All P' T' := by
  induction p with
  | ret a => exact hT a hp
  | tx f label k ih => exact fun s => ⟨h _ _ _ (hp s).1, ih _ (hp s).2⟩
  | ask c k ih => exact fun r => ⟨fun s => h _ _ _ ((hp r).1 s), ih r (hp r).2⟩

end Rules

section Questions

variable {R : σ → σ → Prop} {G : σ → List (Event Λ C ρ) → Event Λ C ρ → σ → Prop}
  {A : List (Event Λ C ρ) → C → Prop}

/-- Every question that a program may come to put, among parties within the rely `R`, is
one that `A` lets it put after the trace so far.  `Safe` says nothing of a question that
has no answer; this does. -/
def Poised (R : σ → σ → Prop) (A : List (Event Λ C ρ) → C → Prop) :
    Prog σ Λ C ρ α → σ → List (Event Λ C ρ) → Prop
  | .ret _, _, _ => True
  | .tx f label k, s, tr => ∀ s₁, R s s₁ →
      (k (f s₁).1).Poised R A (f s₁).2 (tr ++ [.tx (label (f s₁).1)])
  | .ask c k, s, tr => A tr c ∧ ∀ s₁, R s s₁ → ∀ r, (k r).Poised R A s₁ (tr ++ [.ask c r])

/-- **The rule of sequence** for questions: the first part is safe, and where it ends the
second is poised. -/
theorem Poised.bind {p : Prog σ Λ C ρ α} {k : α → Prog σ Λ C ρ β}
    {Q : α → σ → List (Event Λ C ρ) → Prop} {s : σ} {tr : List (Event Λ C ρ)}
    (hp : p.Poised R A s tr) (hs : p.Safe R G Q s tr)
    (hk : ∀ a s tr, Q a s tr → (k a).Poised R A s tr) : (p.bind k).Poised R A s tr := by
  induction p generalizing s tr with
  | ret a => exact hk a s tr hs
  | tx f label g ih => exact fun s₁ h₁ => ih _ (hp s₁ h₁) (hs s₁ h₁).2
  | ask c g ih => exact ⟨hp.1, fun s₁ h₁ r => ih r (hp.2 s₁ h₁ r) (hs s₁ h₁ r).2⟩

/-- What the past alone settles stays settled. -/
theorem poised_of_past {p : Prog σ Λ C ρ α} {B : List (Event Λ C ρ) → Prop} {s : σ}
    {tr : List (Event Λ C ρ)} (hB : ∀ tr e, B tr → B (tr ++ [e])) (hA : ∀ tr c, B tr → A tr c)
    (h : B tr) : p.Poised R A s tr := by
  induction p generalizing s tr with
  | ret a => trivial
  | tx f label k ih => exact fun s₁ _ => ih _ (hB _ _ h)
  | ask c k ih => exact ⟨hA _ _ h, fun s₁ _ r => ih r (hB _ _ h)⟩

/-- A program that is poised stays so while the others go on. -/
theorem Poised.rely {p : Prog σ Λ C ρ α} {s s' : σ} {tr : List (Event Λ C ρ)}
    (htrans : ∀ a b c, R a b → R b c → R a c) (h : p.Poised R A s tr) (hs : R s s') :
    p.Poised R A s' tr := by
  cases p with
  | ret a => trivial
  | tx f label k => exact fun s₁ h₁ => h s₁ (htrans _ _ _ hs h₁)
  | ask c k => exact ⟨h.1, fun s₁ h₁ => h.2 s₁ (htrans _ _ _ hs h₁)⟩

/-- A run of a poised program stands at a poised program. -/
theorem Run.poised {p₀ p : Prog σ Λ C ρ α} {s₀ s : σ} {tr₀ tr : List (Event Λ C ρ)}
    (hrefl : ∀ a, R a a) (htrans : ∀ a b c, R a b → R b c → R a c)
    (h : p₀.Poised R A s₀ tr₀) (hrun : Run R s₀ p₀ tr s p) : p.Poised R A s (tr₀ ++ tr) := by
  induction hrun with
  | start => simpa using h
  | env _ hs ih => exact ih.rely htrans hs
  | step _ hstep ih =>
    rw [← List.append_assoc]
    cases hstep with
    | tx => exact ih _ (hrefl _)
    | ask _ _ _ r => exact ih.2 _ (hrefl _) r

/-- **Progress.**  A poised program that has not ended goes on, if its questions have
answers. -/
theorem Poised.exists_step {p : Prog σ Λ C ρ α} {s : σ} {tr : List (Event Λ C ρ)}
    (h : p.Poised R A s tr) (hA : ∀ c, A tr c → Nonempty (ρ c)) :
    (∃ a, p = .ret a) ∨ ∃ e s' p', Step s p e s' p' := by
  cases p with
  | ret a => exact .inl ⟨a, rfl⟩
  | tx f label k => exact .inr ⟨_, _, _, .tx s f label k⟩
  | ask c k =>
    obtain ⟨r⟩ := hA c h.1
    exact .inr ⟨_, _, _, .ask s c k r⟩

end Questions

/-- The next step of a program, with the answers of `oracle`: the event, and the
state and program after it.  There is none where the program has ended, or where
the oracle has no answer. -/
def next (oracle : (c : C) → Option (ρ c)) (s : σ) :
    Prog σ Λ C ρ α → Option (Event Λ C ρ × σ × Prog σ Λ C ρ α)
  | .ret _ => none
  | .tx f label k => some (.tx (label (f s).1), (f s).2, k (f s).1)
  | .ask c k => (oracle c).map fun r => (.ask c r, s, k r)

/-- The step that an oracle chooses is a step. -/
theorem next_step {oracle : (c : C) → Option (ρ c)} {s s' : σ} {p p' : Prog σ Λ C ρ α}
    {e : Event Λ C ρ} (h : next oracle s p = some (e, s', p')) : Step s p e s' p' := by
  cases p with
  | ret a => simp [next] at h
  | tx f label k =>
    simp only [next, Option.some.injEq, Prod.mk.injEq] at h
    obtain ⟨rfl, rfl, rfl⟩ := h
    exact .tx s f label k
  | ask c k =>
    simp only [next, Option.map_eq_some_iff, Prod.mk.injEq] at h
    obtain ⟨r, -, rfl, rfl, rfl⟩ := h
    exact .ask s c k r

/-- At most `n` steps of a program: the trace, and where the run stands. -/
def advance (oracle : (c : C) → Option (ρ c)) :
    ℕ → σ → Prog σ Λ C ρ α → List (Event Λ C ρ) × σ × Prog σ Λ C ρ α
  | 0, s, p => ([], s, p)
  | n + 1, s, p =>
      match next oracle s p with
      | none => ([], s, p)
      | some (e, s', p') => (e :: (advance oracle n s' p').1, (advance oracle n s' p').2)

/-- A run goes on from where another one stands. -/
theorem Run.trans {R : σ → σ → Prop} {s₀ s₁ s₂ : σ} {p₀ p₁ p₂ : Prog σ Λ C ρ α}
    {tr₁ tr₂ : List (Event Λ C ρ)} (h₁ : Run R s₀ p₀ tr₁ s₁ p₁) (h₂ : Run R s₁ p₁ tr₂ s₂ p₂) :
    Run R s₀ p₀ (tr₁ ++ tr₂) s₂ p₂ := by
  induction h₂ with
  | start => simpa using h₁
  | env _ hs ih => exact ih.env hs
  | step _ hstep ih =>
    rw [← List.append_assoc]
    exact ih.step hstep

/-- **Completeness.**  Where a safe program ends, its steps since the start are those of a
run that ended there. -/
theorem Safe.completes {R : σ → σ → Prop} {G : σ → List (Event Λ C ρ) → Event Λ C ρ → σ → Prop}
    {p : Prog σ Λ C ρ α} {Q : α → σ → List (Event Λ C ρ) → Prop} {s : σ}
    {tr : List (Event Λ C ρ)} (h : p.Safe R G Q s tr) :
    p.Safe R G (fun a s' tr' => Q a s' tr' ∧ ∃ steps, tr' = tr ++ steps ∧
      Run R s p steps s' (.ret a)) s tr := by
  induction p generalizing s tr with
  | ret a => exact ⟨h, [], (List.append_nil tr).symm, .start⟩
  | tx f label k ih =>
    intro s₁ h₁
    obtain ⟨hG, hk⟩ := h s₁ h₁
    refine ⟨hG, (ih _ hk).mono ?_⟩
    rintro a s' tr' ⟨hQ, steps, rfl, hrun⟩
    exact ⟨hQ, _ :: steps, by simp, ((Run.start.env h₁).step (.tx s₁ f label k)).trans hrun⟩
  | ask c k ih =>
    intro s₁ h₁ r
    obtain ⟨hG, hk⟩ := h s₁ h₁ r
    refine ⟨hG, (ih r hk).mono ?_⟩
    rintro a s' tr' ⟨hQ, steps, rfl, hrun⟩
    exact ⟨hQ, _ :: steps, by simp, ((Run.start.env h₁).step (.ask s₁ c k r)).trans hrun⟩

/-- What `advance` computes is a run. -/
theorem advance_run (R : σ → σ → Prop) (oracle : (c : C) → Option (ρ c)) (n : ℕ) (s : σ)
    (p : Prog σ Λ C ρ α) :
    Run R s p (advance oracle n s p).1 (advance oracle n s p).2.1 (advance oracle n s p).2.2 := by
  induction n generalizing s p with
  | zero => exact .start
  | succ n ih =>
    rw [advance]
    cases hnext : next oracle s p with
    | none => exact .start
    | some r =>
      obtain ⟨e, s', p'⟩ := r
      exact (Run.start.step (next_step hnext)).trans (ih s' p')

/-- The run of a program with the answers of `oracle`, if it ends within `n` steps: the
trace, and the state and value at its end. -/
def complete (oracle : (c : C) → Option (ρ c)) (n : ℕ) (s : σ) (p : Prog σ Λ C ρ α) :
    Option (List (Event Λ C ρ) × σ × α) :=
  match advance oracle n s p with
  | (tr, s', .ret a) => some (tr, s', a)
  | _ => none

/-- What `complete` computes is a run. -/
theorem complete_run (R : σ → σ → Prop) {oracle : (c : C) → Option (ρ c)} {n : ℕ} {s s' : σ}
    {p : Prog σ Λ C ρ α} {tr : List (Event Λ C ρ)} {a : α}
    (h : complete oracle n s p = some (tr, s', a)) : Run R s p tr s' (.ret a) := by
  have hrun := advance_run R oracle n s p
  rw [complete] at h
  generalize advance oracle n s p = result at h hrun
  obtain ⟨tr₁, s₁, p₁⟩ := result
  cases p₁ with
  | ret b =>
    obtain ⟨rfl, rfl, rfl⟩ : tr₁ = tr ∧ s₁ = s' ∧ b = a := by simpa using h
    exact hrun
  | tx f label k => cases h
  | ask c k => cases h

end Prog

end Effects
