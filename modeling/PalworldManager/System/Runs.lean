/-
# The rule of runs

`Run.induct` is the induction that every theorem about whole runs goes by: what
holds of an initial database and is preserved by each step, given the invariant
of the system before the step, the policy of the run and what the step may do,
holds of every run.  The invariant itself is one of its conclusions.
-/

import PalworldManager.System.Invariant

namespace PalworldManager

open Effects Text

/-- The contract that asks for nothing. -/
def Contract.none : Contract where
  guarantee _ _ _ _ _ _ := True
  post _ _ _ _ _ := True

/-- The contract that asks for nothing holds. -/
theorem Contract.none_holds [Unicode] : Contract.none.Holds where
  stable _ _ _ _ _ _ _ _ := trivial
  safe _ _ _ _ _ _ := Prog.safe_of_forall (fun _ _ _ _ => trivial) fun _ _ _ => trivial

/-- A split of a list with one element more is a split of the list, or splits off that
element. -/
theorem concat_eq_append_cons {α : Type} {l pre post : List α} {x y : α} :
    l ++ [x] = pre ++ y :: post ↔
      l = pre ∧ x = y ∧ post = [] ∨ ∃ post', post = post' ++ [x] ∧ l = pre ++ y :: post' := by
  constructor
  · intro h
    rcases List.eq_nil_or_concat post with rfl | ⟨post', z, rfl⟩
    · obtain ⟨rfl, he⟩ := List.append_inj' h rfl
      exact .inl ⟨rfl, List.singleton_inj.mp he, rfl⟩
    · rw [List.concat_eq_append, ← List.cons_append, ← List.append_assoc] at h
      obtain ⟨rfl, he⟩ := List.append_inj' h rfl
      obtain rfl : x = z := List.singleton_inj.mp he
      exact .inr ⟨post', List.concat_eq_append .., rfl⟩
  · rintro (⟨rfl, rfl, rfl⟩ | ⟨post', rfl, rfl⟩)
    · rfl
    · simp

namespace System

/-- A fresh database is sound. -/
theorem Initial.sound {s : World} (h : Initial s) : s.Sound where
  pending j job hj := by simp [h.jobs, Table.empty, Table.get] at hj
  records k r hr := by simp [h.backups, Table.empty, Table.get] at hr
  localFiles n j hn := by simp [h.localFiles] at hn
  remoteFiles n j hn := by simp [h.remoteFiles] at hn

variable [Unicode] {K : Contract} {allowed : Policy} {s₀ : World} {h : History} {S S' : System}
  {o : Occurrence}

/-- What is known of one step of a run. -/
structure Stepped (K : Contract) (S : System) (o : Occurrence) (S' : System) : Prop where
  inv : Inv K S
  step : Step S o S'
  turn : Turn S.world o S'.world
  work : ∀ w e, o = .work w e → ∃ cfg p tr, S.process w = some (.running cfg p tr) ∧
    Progressed K S.world tr e S'.world

/-- **The rule of runs.** -/
theorem Run.induct (hK : K.Holds) {M : History → System → Prop}
    (hstart : Initial s₀ → M [] ⟨s₀, fun _ => Option.none⟩)
    (hstep : ∀ h S o S', Run allowed s₀ h S → Stepped K S o S' → allowed S o → M h S →
      M (h ++ [(o, S'.world)]) S')
    (hrun : Run allowed s₀ h S) : Inv K S ∧ M h S := by
  induction hrun with
  | start hs =>
    exact ⟨⟨hs.sound, by simp, by simp⟩, hstart hs⟩
  | step hrun hallowed hs ih =>
    obtain ⟨hI, hM⟩ := ih
    obtain ⟨hI', hturn, hwork⟩ := hI.step hK hs
    exact ⟨hI', hstep _ _ _ _ hrun ⟨hI, hs, hturn, hwork⟩ hallowed hM⟩

/-- **Every event of a round is in the history.** -/
theorem Run.trace_mem (hrun : Run allowed s₀ h S) {w : WorkerId} {cfg : WorkerConfig} {p : Round}
    {tr : List Ev} {e : Ev} (hw : S.process w = some (.running cfg p tr)) (he : e ∈ tr) :
    ∃ s, (.work w e, s) ∈ h := by
  refine (hrun.induct (M := fun h S => ∀ w cfg p tr e, S.process w = some (.running cfg p tr) →
    e ∈ tr → ∃ s, (.work w e, s) ∈ h) Contract.none_holds (by simp) ?_).2 w cfg p tr e hw he
  intro h S o S' _ hs _ ih w cfg p tr e hw he
  have hkeep {tr : List Ev} {p : Round} (hold : S.process w = some (.running cfg p tr))
      (he : e ∈ tr) : ∃ s, (.work w e, s) ∈ h ++ [(o, S'.world)] := by
    obtain ⟨s, hmem⟩ := ih w cfg p tr e hold he
    exact ⟨s, List.mem_append_left _ hmem⟩
  cases hs.step with
  | request r => exact hkeep hw he
  | clock n => exact hkeep hw he
  | heartbeat w' hw' => exact hkeep hw he
  | work w' cfg' p₀ p' tr' e' s' hw' hstep =>
    by_cases hww : w = w'
    · subst hww
      obtain ⟨rfl, rfl, rfl⟩ : cfg' = cfg ∧ p' = p ∧ tr' ++ [e'] = tr := by simpa using hw
      rcases List.mem_append.mp he with he | he
      · exact hkeep hw' he
      · obtain rfl : e = e' := by simpa using he
        exact ⟨s', by simp⟩
    · exact hkeep (by rwa [set_process_ne _ _ hww] at hw) he
  | call w' cfg' hw' =>
    by_cases hww : w = w'
    · subst hww
      obtain ⟨-, -, rfl⟩ : cfg' = cfg ∧ processNext cfg' () = p ∧ [] = tr := by simpa using hw
      simp at he
    · exact hkeep (by rwa [set_process_ne _ _ hww] at hw) he
  | boot cfg' s' _ _ =>
    by_cases hww : w = cfg'.workerId
    · subst hww
      simp at hw
    · exact hkeep (by rwa [set_process_ne _ _ hww] at hw) he
  | recover w' | ended w' | crash w' | leave w' =>
    by_cases hww : w = w'
    · subst hww
      simp at hw
    · exact hkeep (by rwa [set_process_ne _ _ hww] at hw) he

end System

end PalworldManager
