/-
# What every path passes

`Prog.Passes J F T` says that every path through a program, its steps taken from
states that meet `J`, passes a step that meets `F`, or ends with a value in `T`.
It is a property of the tree: the rules of `Exec.Passes` follow the text of a
body, and skip what stands before or after the statement that matters.
`safe_of_passes` brings it to runs, where `M` is what a step that meets `F` leaves
behind.
-/

import PalworldManager.Effects.Exec

namespace Effects

variable {σ Λ C : Type} {ρ : C → Type} {ε L L' α β : Type}

namespace Prog

/-- Every path passes a step that meets `F`, or ends with a value in `T`. -/
def Passes (J : σ → Prop) (F : σ → Event Λ C ρ → Prop) (T : α → Prop) : Prog σ Λ C ρ α → Prop
  | .ret a => T a
  | .tx f label k => ∀ s, J s → F s (.tx (label (f s).1)) ∨ (k (f s).1).Passes J F T
  | .ask c k => ∀ r, (∀ s, J s → F s (.ask c r)) ∨ (k r).Passes J F T

variable {J : σ → Prop} {F : σ → Event Λ C ρ → Prop} {T : α → Prop}

/-- A path goes through the first, and then through the second. -/
theorem passes_bind {p : Prog σ Λ C ρ α} {k : α → Prog σ Λ C ρ β} {T' : β → Prop}
    (hp : p.Passes J F T) (hk : ∀ a, T a → (k a).Passes J F T') : (p.bind k).Passes J F T' := by
  induction p with
  | ret a => exact hk a hp
  | tx f label g ih => exact fun s hs => (hp s hs).imp_right (ih _)
  | ask c g ih => exact fun r => (hp r).imp_right (ih r)

/-- Where every end will do, every path does. -/
theorem passes_of_forall {p : Prog σ Λ C ρ α} (hT : ∀ a, T a) : p.Passes J F T := by
  induction p with
  | ret a => exact hT a
  | tx f label k ih => exact fun s _ => .inr (ih _)
  | ask c k ih => exact fun r => .inr (ih r)

/-- **Soundness.**  `I` is an invariant of the run, and `M` holds from the first
step that meets `F` on. -/
theorem safe_of_passes {R : σ → σ → Prop} {P : σ → Event Λ C ρ → σ → Prop}
    {G : σ → List (Event Λ C ρ) → Event Λ C ρ → σ → Prop} {I M : σ → List (Event Λ C ρ) → Prop}
    {p : Prog σ Λ C ρ α} {T' : α → Prop} {s : σ} {tr : List (Event Λ C ρ)} (hall : p.All P T')
    (hR : ∀ s s' tr, R s s' → I s tr → I s' tr ∧ (M s tr → M s' tr))
    (hI : ∀ s tr e s', I s tr → P s e s' → I s' (tr ++ [e]) ∧ G s tr e s')
    (hJ : ∀ s tr, I s tr → J s)
    (hM : ∀ s tr e s', I s tr → P s e s' → F s e ∨ M s tr → M s' (tr ++ [e]))
    (hp : p.Passes J F T ∨ M s tr) (h : I s tr) :
    p.Safe R G (fun a s tr => T' a ∧ I s tr ∧ (T a ∨ M s tr)) s tr := by
  induction p generalizing s tr with
  | ret a => exact ⟨hall, h, hp⟩
  | tx f label k ih =>
    intro s₁ h₁
    obtain ⟨hI₁, hM₁⟩ := hR _ _ _ h₁ h
    obtain ⟨hstep, hrest⟩ := hall s₁
    obtain ⟨hI', hG⟩ := hI _ _ _ _ hI₁ hstep
    refine ⟨hG, ih _ hrest ?_ hI'⟩
    rcases hp with hp | hm
    · exact (hp s₁ (hJ _ _ hI₁)).symm.imp_right fun hF => hM _ _ _ _ hI₁ hstep (.inl hF)
    · exact .inr (hM _ _ _ _ hI₁ hstep (.inr (hM₁ hm)))
  | ask c k ih =>
    intro s₁ h₁ r
    obtain ⟨hI₁, hM₁⟩ := hR _ _ _ h₁ h
    obtain ⟨hstep, hrest⟩ := hall r
    obtain ⟨hI', hG⟩ := hI _ _ _ _ hI₁ (hstep s₁)
    refine ⟨hG, ih r hrest ?_ hI'⟩
    rcases hp with hp | hm
    · exact (hp r).symm.imp_right fun hF => hM _ _ _ _ hI₁ (hstep s₁) (.inl (hF s₁ (hJ _ _ hI₁)))
    · exact .inr (hM _ _ _ _ hI₁ (hstep s₁) (.inr (hM₁ hm)))

end Prog

namespace Exec

/-- Every path through a body passes a step that meets `F`, or returns a value in
`N`, or raises an exception in `E`. -/
structure Passes (J : σ → Prop) (F : σ → Event Λ C ρ → Prop) (N : α → Prop) (E : ε → Prop)
    (x : Exec σ Λ C ρ ε L α) : Prop where
  path : ∀ ℓ, (x ℓ).Passes J F fun r => (∀ a, r.1 = .ok a → N a) ∧ ∀ e, r.1 = .error e → E e

/-- Any value, or any exception. -/
def anything : α → Prop := fun _ => True

/-- No value, or no exception. -/
def nothing : α → Prop := fun _ => False

variable {J : σ → Prop} {F : σ → Event Λ C ρ → Prop} {N N' : α → Prop} {E E' : ε → Prop}

/-- Every path ends somehow. -/
theorem passes_anything (x : Exec σ Λ C ρ ε L α) : x.Passes J F anything anything :=
  ⟨fun _ => Prog.passes_of_forall fun _ => ⟨fun _ _ => trivial, fun _ _ => trivial⟩⟩

/-- A value is an end. -/
theorem passes_pure {a : α} (h : N a) : (pure a : Exec σ Λ C ρ ε L α).Passes J F N E :=
  ⟨fun _ => ⟨fun _ ha => Except.ok.inj ha ▸ h, fun _ he => nomatch he⟩⟩

/-- An exception is an end. -/
theorem passes_raise {e : ε} (h : E e) : (raise e : Exec σ Λ C ρ ε L α).Passes J F N E :=
  ⟨fun _ => ⟨fun _ ha => (nomatch ha), fun _ he => Except.error.inj he ▸ h⟩⟩

/-- A computation ends with its value or its exception. -/
theorem passes_ofExcept {r : Except ε α} (hN : ∀ a, r = .ok a → N a)
    (hE : ∀ e, r = .error e → E e) : (ofExcept r : Exec σ Λ C ρ ε L α).Passes J F N E := by
  cases r with
  | ok a => exact passes_pure (hN a rfl)
  | error e => exact passes_raise (hE e rfl)

/-- So does a look at the local variables. -/
theorem passes_locals : (locals : Exec σ Λ C ρ ε L L).Passes J F anything E :=
  ⟨fun _ => ⟨fun _ _ => trivial, fun _ he => nomatch he⟩⟩

/-- A call ends with any answer. -/
theorem passes_ask (c : C) : (ask c : Exec σ Λ C ρ ε L (ρ c)).Passes J F anything E :=
  ⟨fun _ _ => .inr ⟨fun _ _ => trivial, fun _ he => nomatch he⟩⟩

/-- Where a call answers what matters, the answer may be told from then on. -/
theorem passes_ask_bind {c : C} {f : ρ c → Exec σ Λ C ρ ε L β} {N : β → Prop}
    (h : ∀ r, (∀ s, J s → F s (.ask c r)) ∨ (f r).Passes J F N E) :
    (ask c >>= f : Exec σ Λ C ρ ε L β).Passes J F N E :=
  ⟨fun ℓ r => (h r).imp_right fun hf => hf.path ℓ⟩

/-- A transaction passes the point, or ends well. -/
theorem passes_tx {f : σ → α × σ} {label : α → Λ}
    (h : ∀ s, J s → F s (.tx (label (f s).1)) ∨ N (f s).1) :
    (tx f label : Exec σ Λ C ρ ε L α).Passes J F N E :=
  ⟨fun _ s hs => (h s hs).imp_right fun hN => ⟨fun _ ha => Except.ok.inj ha ▸ hN,
    fun _ he => nomatch he⟩⟩

/-- A path goes through the first, and then through the second. -/
theorem passes_bind {x : Exec σ Λ C ρ ε L α} {f : α → Exec σ Λ C ρ ε L β} {N' : β → Prop}
    (hx : x.Passes J F N E) (hf : ∀ a, N a → (f a).Passes J F N' E) :
    (x >>= f).Passes J F N' E :=
  ⟨fun ℓ => Prog.passes_bind (hx.path ℓ) fun
    | (.ok a, ℓ'), h => (hf a (h.1 a rfl)).path ℓ'
    | (.error e, _), h => ⟨fun _ ha => (nomatch ha), fun _ he => Except.error.inj he ▸ h.2 e rfl⟩⟩

/-- What stands before the statement that matters is skipped, unless it raises. -/
theorem passes_after {x : Exec σ Λ C ρ ε L α} {f : α → Exec σ Λ C ρ ε L β} {N : β → Prop}
    (hf : ∀ a, (f a).Passes J F N anything) : (x >>= f).Passes J F N anything :=
  passes_bind (passes_anything x) fun a _ => hf a

/-- What stands after it is not reached without it. -/
theorem passes_before {x : Exec σ Λ C ρ ε L α} {f : α → Exec σ Λ C ρ ε L β} {N' : β → Prop}
    (hx : x.Passes J F nothing E) : (x >>= f).Passes J F N' E :=
  passes_bind hx fun _ => False.elim

/-- A path goes through a body, and through the handler of what it raises. -/
theorem passes_tryCatch {x : Exec σ Λ C ρ ε L α} {h : ε → Exec σ Λ C ρ ε L α}
    (hx : x.Passes J F N E) (hh : ∀ e, E e → (h e).Passes J F N E') :
    (tryCatch x h).Passes J F N E' :=
  ⟨fun ℓ => Prog.passes_bind (hx.path ℓ) fun
    | (.ok a, _), hr => ⟨fun _ ha => Except.ok.inj ha ▸ hr.1 a rfl, fun _ he => nomatch he⟩
    | (.error e, ℓ'), hr => (hh e (hr.2 e rfl)).path ℓ'⟩

/-- A path goes through a body and its `finally`. -/
theorem passes_ensuring {x : Exec σ Λ C ρ ε L α} {y : Exec σ Λ C ρ ε L Unit}
    (hx : x.Passes J F N E) (hy : y.Passes J F anything E) : (ensuring x y).Passes J F N E :=
  ⟨fun ℓ => Prog.passes_bind (hx.path ℓ) fun (_, ℓ') h => Prog.passes_bind (hy.path ℓ') fun
    | (.ok _, _), _ => h
    | (.error e, _), h' =>
      ⟨fun _ ha => (nomatch ha), fun _ he => Except.error.inj he ▸ h'.2 e rfl⟩⟩

/-- A function passes what its body does. -/
theorem passes_scope {ℓ' : L'} {x : Exec σ Λ C ρ ε L' α} (hx : x.Passes J F N E) :
    (scope ℓ' x : Exec σ Λ C ρ ε L α).Passes J F N E :=
  ⟨fun _ => Prog.passes_bind (hx.path ℓ') fun _ h => h⟩

/-- A conditional passes what its branch does. -/
theorem passes_ite {p : Prop} [Decidable p] {x y : Exec σ Λ C ρ ε L α}
    (hx : p → x.Passes J F N E) (hy : ¬p → y.Passes J F N E) :
    (if p then x else y).Passes J F N E := by
  by_cases h : p
  · simpa only [h, if_true] using hx h
  · simpa only [h, if_false] using hy h

/-- The ends may be said more weakly. -/
theorem Passes.mono {x : Exec σ Λ C ρ ε L α} (hx : x.Passes J F N E) (hN : ∀ a, N a → N' a)
    (hE : ∀ e, E e → E' e) : x.Passes J F N' E' := by
  refine ⟨fun ℓ => ?_⟩
  have h := hx.path ℓ
  generalize x ℓ = p at h
  induction p with
  | ret a => exact ⟨fun _ ha => hN _ (h.1 _ ha), fun _ he => hE _ (h.2 _ he)⟩
  | tx f label k ih => exact fun s hs => (h s hs).imp_right (ih _)
  | ask c k ih => exact fun r => (h r).imp_right (ih r)

section Wp

variable {R : σ → σ → Prop} {G : σ → List (Event Λ C ρ) → Event Λ C ρ → σ → Prop}
  {P : σ → Event Λ C ρ → σ → Prop} {I M : σ → List (Event Λ C ρ) → Prop} {V : L → L → Prop}
  {ℓ : L} {s : σ} {tr : List (Event Λ C ρ)}

/-- **The rule of passing.** -/
theorem wp_passes {x : Exec σ Λ C ρ ε L α} (hall : x.Keeps P V) (hx : x.Passes J F N E)
    (hR : ∀ s s' tr, R s s' → I s tr → I s' tr ∧ (M s tr → M s' tr))
    (hI : ∀ s tr e s', I s tr → P s e s' → I s' (tr ++ [e]) ∧ G s tr e s')
    (hJ : ∀ s tr, I s tr → J s)
    (hM : ∀ s tr e s', I s tr → P s e s' → F s e ∨ M s tr → M s' (tr ++ [e])) (h : I s tr) :
    wp R G x (fun a _ s tr => I s tr ∧ (N a ∨ M s tr)) (fun e _ s tr => I s tr ∧ (E e ∨ M s tr))
      ℓ s tr := by
  unfold wp
  refine Prog.Safe.mono (Prog.safe_of_passes (hall.all ℓ) hR hI hJ hM (.inl (hx.path ℓ)) h) ?_
  rintro ⟨r, ℓ'⟩ s tr ⟨-, hI, hr⟩
  cases r with
  | ok a => exact ⟨hI, hr.imp_left fun hT => hT.1 a rfl⟩
  | error e => exact ⟨hI, hr.imp_left fun hT => hT.2 e rfl⟩

end Wp

end Exec

end Effects
