/-
# Programs over a part of the state

A program over a state `σ` is one over a state `σ'` that has it as a part: its transactions
read and write that part, its labels and questions are among those of the larger system.
`wp_zoom` is the rule: what the program does to its part it does there, and what is said of
the rest, and of the past, is kept throughout.
-/

import PalworldManager.Effects.Exec

namespace Effects

/-- How a system is a part of a larger one. -/
structure Zoom (σ Λ C : Type) (ρ : C → Type) (σ' Λ' C' : Type) (ρ' : C' → Type) where
  get : σ' → σ
  put : σ → σ' → σ'
  label : Λ → Λ'
  call : C → C'
  reply : ∀ c, ρ' (call c) → ρ c
  get_put : ∀ s s', get (put s s') = s

namespace Zoom

variable {σ Λ C : Type} {ρ : C → Type} {σ' Λ' C' : Type} {ρ' : C' → Type}
  {ε ε' L L' α : Type}

/-- A program over the part, as one over the whole. -/
def prog (z : Zoom σ Λ C ρ σ' Λ' C' ρ') : Prog σ Λ C ρ α → Prog σ' Λ' C' ρ' α
  | .ret a => .ret a
  | .tx f label k =>
      .tx (fun s' => ((f (z.get s')).1, z.put (f (z.get s')).2 s')) (fun b => z.label (label b))
        fun b => z.prog (k b)
  | .ask c k => .ask (z.call c) fun r => z.prog (k (z.reply c r))

/-- A call of a function over the part, whose exceptions become others. -/
def exec (z : Zoom σ Λ C ρ σ' Λ' C' ρ') (error : ε → ε') (ℓ' : L') (x : Exec σ Λ C ρ ε L' α) :
    Exec σ' Λ' C' ρ' ε' L α :=
  fun ℓ => (z.prog (x ℓ')).bind fun r => .ret (r.1.mapError error, ℓ)

variable {z : Zoom σ Λ C ρ σ' Λ' C' ρ'} {R : σ → σ → Prop} {R' : σ' → σ' → Prop}
  {G : σ → σ → Prop} {F : σ' → List (Event Λ' C' ρ') → Prop}

/-- What is said of the rest of the state and of the past is kept. -/
structure Frame (z : Zoom σ Λ C ρ σ' Λ' C' ρ') (R : σ → σ → Prop) (R' : σ' → σ' → Prop)
    (F : σ' → List (Event Λ' C' ρ') → Prop) : Prop where
  rely : ∀ a b, R' a b → R (z.get a) (z.get b)
  others : ∀ a b tr, R' a b → F a tr → F b tr
  tx : ∀ s s' tr l, F s' tr → F (z.put s s') (tr ++ [.tx l])
  ask : ∀ s' tr c r, F s' tr → F s' (tr ++ [.ask c r])

/-- **A part of the state is all that a program for it looks at**: what is proved of the part
holds in the whole, and the rest stays. -/
theorem safe_prog {p : Prog σ Λ C ρ α} {Q : α → σ → Prop} {s' : σ'} {tr : List (Event Λ C ρ)}
    {tr' : List (Event Λ' C' ρ')} (hz : z.Frame R R' F)
    (hp : p.Safe R (fun s _ _ t => G s t) (fun a s _ => Q a s) (z.get s') tr) (hF : F s' tr') :
    (z.prog p).Safe R' (fun s tr e t => (F s tr ∧ F t (tr ++ [e])) ∧ G (z.get s) (z.get t))
      (fun a s tr => F s tr ∧ Q a (z.get s)) s' tr' := by
  induction p generalizing s' tr tr' with
  | ret a => exact ⟨hF, hp⟩
  | tx f label k ih =>
    intro s₁ h₁
    obtain ⟨hG, hk⟩ := hp _ (hz.rely _ _ h₁)
    have hF₁ := hz.others _ _ _ h₁ hF
    have hnext := hz.tx (f (z.get s₁)).2 s₁ tr' (z.label (label (f (z.get s₁)).1)) hF₁
    have hget := z.get_put (f (z.get s₁)).2 s₁
    exact ⟨⟨⟨hF₁, hnext⟩, hget.symm ▸ hG⟩, ih _ (hget.symm ▸ hk) hnext⟩
  | ask c k ih =>
    intro s₁ h₁ r
    obtain ⟨hG, hk⟩ := hp _ (hz.rely _ _ h₁) (z.reply c r)
    have hF₁ := hz.others _ _ _ h₁ hF
    have hnext := hz.ask s₁ tr' (z.call c) r hF₁
    exact ⟨⟨⟨hF₁, hnext⟩, hG⟩, ih _ hk hnext⟩

/-- What every step of a program does to the part. -/
theorem keeps_exec {P : σ → Event Λ C ρ → σ → Prop} {P' : σ' → Event Λ' C' ρ' → σ' → Prop}
    {V : L' → L' → Prop} {x : Exec σ Λ C ρ ε L' α} {error : ε → ε'} {ℓ' : L'} (hx : x.Keeps P V)
    (htx : ∀ s' l t, P (z.get s') (.tx l) t → P' s' (.tx (z.label l)) (z.put t s'))
    (hask : ∀ s' c r, P (z.get s') (.ask c (z.reply c r)) (z.get s') →
      P' s' (.ask (z.call c) r) s') :
    (z.exec error ℓ' x : Exec σ' Λ' C' ρ' ε' L α).Keeps P' Exec.anyLocals := by
  refine ⟨fun ℓ => Prog.all_bind (T := fun _ => True) ?_ fun _ _ => trivial⟩
  have hall := hx.all ℓ'
  generalize x ℓ' = p at hall
  induction p with
  | ret a => trivial
  | tx f label k ih => exact fun s' => ⟨htx _ _ _ (hall _).1, ih _ (hall (z.get s')).2⟩
  | ask c k ih =>
    exact fun r => ⟨fun s' => hask _ _ _ ((hall (z.reply c r)).1 _), ih _ (hall _).2⟩

/-- **The rule of the part.** -/
theorem wp_exec {x : Exec σ Λ C ρ ε L' α} {error : ε → ε'} {ℓ' : L'} {ℓ : L}
    {Q : α → σ → Prop} {E : ε → σ → Prop} {s' : σ'} {tr : List (Event Λ C ρ)}
    {tr' : List (Event Λ' C' ρ')} {G' : σ' → List (Event Λ' C' ρ') → Event Λ' C' ρ' → σ' → Prop}
    {Q' : α → L → σ' → List (Event Λ' C' ρ') → Prop}
    {E' : ε' → L → σ' → List (Event Λ' C' ρ') → Prop} (hz : z.Frame R R' F)
    (hx : Exec.wp R (fun s _ _ t => G s t) x (fun a _ s _ => Q a s) (fun e _ s _ => E e s) ℓ'
      (z.get s') tr) (hF : F s' tr')
    (hG : ∀ s tr e t, F s tr → F t (tr ++ [e]) → G (z.get s) (z.get t) → G' s tr e t)
    (hQ : ∀ a s tr, F s tr → Q a (z.get s) → Q' a ℓ s tr)
    (hE : ∀ e s tr, F s tr → E e (z.get s) → E' (error e) ℓ s tr) :
    Exec.wp R' G' (z.exec error ℓ' x) Q' E' ℓ s' tr' := by
  unfold Exec.wp at hx ⊢
  refine (Prog.safe_bind _ _ _ _ _).mpr ?_
  have hp : (x ℓ').Safe R (fun s _ _ t => G s t)
      (fun r s _ => (∀ a, r.1 = .ok a → Q a s) ∧ ∀ e, r.1 = .error e → E e s) (z.get s') tr := by
    refine hx.mono fun r s _ h => ?_
    obtain ⟨r, ℓ''⟩ := r
    cases r with
    | ok a => exact ⟨fun _ ha => Except.ok.inj ha ▸ h, nofun⟩
    | error e => exact ⟨nofun, fun _ he => Except.error.inj he ▸ h⟩
  have hsafe := (safe_prog hz hp hF).guarantee fun s tr e t h => hG s tr e t h.1.1 h.1.2 h.2
  refine hsafe.mono fun r s tr h => ?_
  obtain ⟨r, ℓ''⟩ := r
  obtain ⟨hF', hq⟩ := h
  cases r with
  | ok a => exact hQ a s tr hF' (hq.1 a rfl)
  | error e => exact hE e s tr hF' (hq.2 e rfl)

end Zoom

end Effects
