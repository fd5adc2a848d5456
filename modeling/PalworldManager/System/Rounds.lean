/-
# The events of one job

A job is claimed once, so one round does all the work on it.  The events of a job in the
history of a run are therefore those in the trace of that round, in the order in which they
happened there (`Run.jobEvents_eq`): what a contract says of a trace is said of the history.

A step in the middle of a history is a step of a shorter run (`Run.stepped_of_split`); where a
worker takes it for a job, it is within the contract after the job's earlier events
(`Run.within_of_split`).

Around the executor and its fallback a round writes the log and releases the lock
(`wp_processClaimed_frame`), and a law of that execution is a law of the round
(`claimedRound_safe`).
-/

import PalworldManager.System.Rows

namespace PalworldManager

open Effects Text

/-- The job on whose behalf a transaction is, if it is one job's. -/
def Label.job : Label → Option JobId
  | .write i | .guard i _ _ | .checkpoint i _ _ | .records i | .published i _ _ | .removed i _ _
  | .deleted i _ | .staged i _ | .record i _ | .reported i _ | .irreversible i _
  | .finish i _ _ => some i
  | .read | .claim _ | .release _ | .recover | .lease => none

/-- The job on which a step works.  The log is made before there is a job. -/
def jobOf : Ev → Option JobId
  | .ask a _ => if a.2 = .createLog then none else some a.1
  | .tx l => l.job

/-- The events of job `j` in a trace. -/
def eventsOf (j : JobId) (tr : List Ev) : List Ev := tr.filter fun e => jobOf e == some j

/-- What a worker did in an occurrence. -/
def Occurrence.event : Occurrence → Option Ev
  | .work _ e => some e
  | _ => none

section Events

variable {i j : JobId} {s s' : World} {e : Ev} {l : Label} {tr : List Ev}

/-- A transaction about a job is on its behalf, unless it only reads. -/
theorem Label.job_of_about (h : l.About j) (hl : l ≠ .read) : l.job = some j := by
  cases l with
  | read => exact absurd rfl hl
  | claim _ | release _ | recover | lease => exact h.elim
  | _ => exact congrArg some h

/-- A step of the work on a job is that job's, or nobody's. -/
theorem Worked.jobOf (h : Worked i s e s') (he : jobOf e = some j) : i = j := by
  cases e with
  | ask a r =>
    rcases h with ⟨rfl, -⟩ | ⟨h, -⟩
    · simp only [PalworldManager.jobOf] at he
      split_ifs at he
      exact Option.some.inj he
    · cases h
  | tx l =>
    rcases h with h | ⟨h, -⟩
    · have hl : l ≠ .read := fun hl => by simp [PalworldManager.jobOf, Label.job, hl] at he
      exact Option.some.inj ((Label.job_of_about (Effect.about h) hl).symm.trans he)
    · cases h
      cases he

/-- What the row of a job keeps under the work on it. -/
theorem Worked.rowKept {job : Job} (h : Worked j s e s') (hj : s.jobs.get j = some job) :
    ∃ job', s'.jobs.get j = some job' ∧ RowKept (stepClass e = .opening) job job' := by
  rcases h with h | ⟨rfl, rfl⟩
  · rcases h.cases with hp | ⟨found, new, -, hend⟩
    · obtain ⟨job', hj', hrow, -⟩ := hp.row job hj
      exact ⟨job', hj', hrow⟩
    · obtain ⟨job₁, job', hj₁, hj', hrow, -⟩ := hend.row
      obtain rfl : job = job₁ := by simpa [hj] using hj₁
      exact ⟨job', hj', hrow.kind, hrow.cancelRequested, hrow.requiresMaintenanceLock,
        hrow.coordinationKey, fun hc => .inl ((hrow.cancellable hc).resolve_right id)⟩
  · exact ⟨job, hj, .refl job⟩

/-- The events of a job in both traces. -/
theorem eventsOf_append (tr' : List Ev) : eventsOf j (tr ++ tr') = eventsOf j tr ++ eventsOf j tr' :=
  List.filter_append ..

/-- The events of a job are those of the trace that are its own. -/
theorem mem_eventsOf : e ∈ eventsOf j tr ↔ e ∈ tr ∧ jobOf e = some j := by
  simp [eventsOf]

/-- What a worker does for its job is the job's event, but for what is of no account. -/
theorem Worked.jobOf_eq (h : Worked j s e s') (hr : stepClass e ≠ .routine)
    (hround : stepClass e ≠ .round) : PalworldManager.jobOf e = some j := by
  rcases h with h | ⟨rfl, -⟩
  · cases e with
    | ask a r =>
      obtain ⟨rfl, -⟩ := h
      have hlog : a.2 ≠ .createLog := fun ha => hr (by simp [stepClass, ha, Call.cls])
      simp [PalworldManager.jobOf, hlog]
    | tx l => exact Label.job_of_about (Effect.about h) fun hl => hr (by rw [hl]; rfl)
  · exact absurd rfl hround

end Events

section Frame

variable {L : Type} {j : JobId} {kind : JobKind} {cfg : WorkerConfig} {s : World} {tr : List Ev}
  {ℓ : L}

/-- **The frame of a round**: the log and the lock stand around the executor and its fallback.
`I` holds until the executor starts, and `X` where it raised. -/
theorem wp_processClaimed_frame [Unicode] {G : World → List Ev → Ev → World → Prop}
    {I X : World → List Ev → Prop}
    (hG : ∀ s tr e s', stepClass e = .routine ∨ stepClass e = .round → G s tr e s')
    (hI : ∀ s s' tr, Others j s s' → I s tr → I s' tr)
    (hIroutine : ∀ s tr e s', I s tr → Acts (· = .routine) j s e s' → I s' (tr ++ [e]))
    (hX : ∀ s s' tr, Others j s s' → X s tr → X s' tr)
    (hXroutine : ∀ s tr e s', X s tr → Acts (· = .routine) j s e s' → X s' (tr ++ [e]))
    (hIX : ∀ s tr, I s tr → X s tr)
    (hexecutor : ∀ (ℓ : L) s tr, I s tr → Exec.wp (Others j) G (executor cfg j kind)
      (fun _ _ _ _ => True) (fun _ _ s tr => X s tr) ℓ s tr)
    (hfallback : ∀ (ℓ : L) s tr, X s tr → Exec.wp (Others j) G (fallback j kind)
      (fun _ _ _ _ => True) (fun _ _ _ _ => True) ℓ s tr)
    (h : I s tr) :
    Exec.wp (Others j) G (processClaimed cfg j kind) (fun _ _ _ _ => True) (fun _ _ _ _ => True)
      ℓ s tr := by
  have haround {α : Type} {x : Py L α} {J : World → List Ev → Prop}
      (hx : Exec.Keeps (Acts (· = .routine) j) Exec.anyLocals x)
      (hJ : ∀ s s' tr, Others j s s' → J s tr → J s' tr)
      (hJroutine : ∀ s tr e s', J s tr → Acts (· = .routine) j s e s' → J s' (tr ++ [e]))
      {ℓ : L} {s : World} {tr : List Ev} (h : J s tr) :
      Exec.wp (Others j) G x (fun _ _ s tr => J s tr) (fun _ _ s tr => J s tr) ℓ s tr :=
    Exec.wp_mono (Exec.wp_keeps (I := J) hx hJ
      (fun s tr e s' h he => ⟨hJroutine s tr e s' h he, hG _ _ _ _ (.inl he.2)⟩) h)
      (fun _ _ _ _ h => h.2) fun _ _ _ _ h => h.2
  have hrelease {ℓ : L} {s : World} {tr : List Ev} : Exec.wp (Others j) G (releaseLock j)
      (fun _ _ _ _ => True) (fun _ _ _ _ => True) ℓ s tr := by
    rw [releaseLock, wp_session]
    exact fun s₁ _ => ⟨fun _ _ _ => ⟨hG _ _ _ _ (.inr rfl), trivial⟩,
      fun _ _ => ⟨hG _ _ _ _ (.inl rfl), trivial⟩⟩
  have hclose (finished : Bool) {ℓ : L} {s : World} {tr : List Ev} : Exec.wp (Others j) G
      (if finished = true then closeLog j else pure ()) (fun _ _ _ _ => True)
      (fun _ _ _ _ => True) ℓ s tr :=
    haround (J := fun _ _ => True) (Exec.keeps_ite (fun _ => keeps_closeLog rfl)
      fun _ => Exec.keeps_pure _) (fun _ _ _ _ h => h) (fun _ _ _ _ h _ => h) trivial
  have hrescue {ℓ : L} {s : World} {tr : List Ev} (h : X s tr) : Exec.wp (Others j) G
      (do
        appendLog j "Execução falhou de forma inesperada."
        fallback j kind
        pure false : Py L Bool)
      (fun finished => Exec.wp (Others j) G (if finished = true then closeLog j else pure ())
        (fun _ _ _ _ => True) fun _ _ _ _ => True) (fun _ _ _ _ => True) ℓ s tr := by
    rw [Exec.wp_bind]
    refine Exec.wp_mono (haround (keeps_appendLog (A := (· = .routine)) rfl _) hX hXroutine h)
      (fun _ ℓ s tr h => ?_) fun _ _ _ _ _ => trivial
    rw [Exec.wp_bind]
    exact Exec.wp_mono (hfallback ℓ s tr h) (fun _ _ _ _ _ => (Exec.wp_pure _).mpr (hclose false))
      fun _ _ _ _ h => h
  rw [processClaimed, Exec.wp_ensuring]
  refine Exec.wp_mono (Q := fun _ _ _ _ => True) (E := fun _ _ _ _ => True) ?_
    (fun _ _ _ _ _ => hrelease) fun _ _ _ _ _ => hrelease
  rw [runClaimed, Exec.wp_bind, Exec.wp_tryCatch, Exec.wp_bind, runExecutor, Exec.wp_bind]
  have hopened := haround (keeps_openLog (A := (· = .routine)) rfl kind) hI hIroutine h (ℓ := ℓ)
  refine Exec.wp_mono hopened (fun _ ℓ s tr h => ?_) fun _ _ _ _ h => hrescue (hIX _ _ h)
  exact Exec.wp_mono (hexecutor ℓ s tr h) (fun _ _ _ _ _ => (Exec.wp_pure _).mpr (hclose true))
    fun _ _ _ _ h => hrescue h

/-- **A round is safe** by the law of its execution, where the law is asked for. -/
theorem claimedRound_safe [Unicode] {G : World → List Ev → Ev → World → Prop} {p : Prop}
    (h : p → Exec.wp (Others j) G (processClaimed cfg j kind) (fun _ _ _ _ => True)
      (fun _ _ _ _ => True) () s tr) :
    (claimedRound cfg j kind).Safe (Others j) (fun s tr e s' => p → G s tr e s')
      (fun _ _ _ => True) s tr := by
  by_cases hp : p
  · have hround : Exec.wp (Others j) G (processClaimed cfg j kind >>= fun _ => pure true : Py Unit Bool)
        (fun _ _ _ _ => True) (fun _ _ _ _ => True) () s tr := by
      rw [Exec.wp_bind]
      exact Exec.wp_mono (h hp) (fun _ _ _ _ h => (Exec.wp_pure _).mpr h) fun _ _ _ _ h => h
    exact ((Exec.safe_of_wp hround).mono fun _ _ _ _ => trivial).guarantee fun _ _ _ _ h _ => h
  · exact Prog.safe_of_forall (fun _ _ _ _ hp' => absurd hp' hp) fun _ _ _ => trivial

end Frame

namespace System

/-- The events of job `j` in a history. -/
def jobEvents (j : JobId) (h : History) : List Ev := eventsOf j (h.filterMap fun x => x.1.event)

section Runs

variable {allowed : Policy} {s₀ : World} {h pre post : History} {S S' : System} {o : Occurrence}
  {i j : JobId} {w : WorkerId} {cfg : WorkerConfig} {p : Round} {tr : List Ev} {e : Ev} {s : World}

/-- The events of a job in both histories. -/
theorem jobEvents_append (h' : History) : jobEvents j (h ++ h') = jobEvents j h ++ jobEvents j h' := by
  rw [jobEvents, List.filterMap_append, eventsOf_append]
  rfl

/-- One more occurrence, and its event if it is the job's. -/
theorem jobEvents_concat : jobEvents j (h ++ [(o, s)]) =
    jobEvents j h ++ eventsOf j o.event.toList := by
  rw [jobEvents, List.filterMap_append, eventsOf_append]
  cases ho : o.event <;> simp [jobEvents, ho]

/-- An occurrence in which no worker did anything. -/
theorem jobEvents_concat_of_event (ho : o.event = none) :
    jobEvents j (h ++ [(o, s)]) = jobEvents j h := by
  simp [jobEvents_concat, ho, eventsOf]

/-- A step for the job. -/
theorem jobEvents_work (he : jobOf e = some j) :
    jobEvents j (h ++ [(.work w e, s)]) = jobEvents j h ++ [e] := by
  simp [jobEvents_concat, Occurrence.event, eventsOf, he]

/-- A step for another job, or for none. -/
theorem jobEvents_work_of_ne (he : jobOf e ≠ some j) :
    jobEvents j (h ++ [(.work w e, s)]) = jobEvents j h := by
  simp [jobEvents_concat, Occurrence.event, eventsOf, he]

/-- The events of a job are what the workers did for it. -/
theorem mem_jobEvents : e ∈ jobEvents j h ↔ (∃ w s, (.work w e, s) ∈ h) ∧ jobOf e = some j := by
  rw [jobEvents, mem_eventsOf, List.mem_filterMap]
  refine and_congr_left fun _ => ⟨?_, fun ⟨w, s, hmem⟩ => ⟨_, hmem, rfl⟩⟩
  rintro ⟨⟨o, s⟩, hmem, ho⟩
  cases o with
  | work w e' =>
    obtain rfl : e' = e := Option.some.inj ho
    exact ⟨w, s, hmem⟩
  | _ => cases ho

variable [Unicode] {K : Contract}

/-- **A step in the middle of a history** is a step of a shorter run. -/
theorem Run.stepped_of_split (hK : K.Holds)
    (hrun : Run allowed s₀ (pre ++ (o, s) :: post) S) :
    ∃ S₁ S₂, Run allowed s₀ pre S₁ ∧ Stepped K S₁ o S₂ ∧ allowed S₁ o ∧ s = S₂.world := by
  refine (hrun.induct (M := fun h _ => ∀ pre post o s, h = pre ++ (o, s) :: post →
    ∃ S₁ S₂, Run allowed s₀ pre S₁ ∧ Stepped K S₁ o S₂ ∧ allowed S₁ o ∧ s = S₂.world) hK ?_ ?_).2
    pre post o s rfl
  · intro _ pre post o s hsplit
    simp at hsplit
  · intro h S o' S' hrun hs hallowed ih pre post o s hsplit
    rcases concat_eq_append_cons.mp hsplit with ⟨rfl, heq, -⟩ | ⟨post', -, rfl⟩
    · obtain ⟨rfl, rfl⟩ := Prod.mk.inj heq
      exact ⟨S, S', hrun, hs, hallowed, rfl⟩
    · exact ih pre post' o s rfl

/-- The step of a worker for a job is within the contract of its round. -/
theorem Stepped.within (hs : Stepped K S o S') (ho : o = .work w e) (he : jobOf e = some j) :
    ∃ cfg p tr job, S.process w = some (.running cfg p tr) ∧ claimedIn tr = some j ∧
      S.world.jobs.get j = some job ∧ job.status ≠ .pending ∧
      K.guarantee j job.kind S.world tr e S'.world ∧ Worked j S.world e S'.world := by
  obtain ⟨cfg, p, tr, hw, hprog⟩ := hs.work w e ho
  cases hprog with
  | before _ _ he' =>
    rcases he' with rfl | rfl | ⟨r, rfl⟩
    · cases he
    · cases he
    · simp [jobOf] at he
  | claims _ _ _ he' _ =>
    subst he'
    cases he
  | within i kind hi hrow hG hworked =>
    obtain rfl := hworked.jobOf he
    obtain ⟨job, hj, hnot, rfl⟩ := hrow
    exact ⟨cfg, p, tr, job, hw, hi, hj, hnot, hG, hworked⟩

/-- Nothing is done for a job before it is claimed. -/
theorem Run.jobEvents_of_unclaimed (hrun : Run allowed s₀ h S) (hj : ¬S.world.Claimed j) :
    jobEvents j h = [] := by
  refine (hrun.induct (M := fun h S => ∀ j, ¬S.world.Claimed j → jobEvents j h = [])
    Contract.none_holds (fun _ _ _ => rfl) ?_).2 j hj
  intro h S o S' _ hs _ ih j hj
  have hold := ih j fun hclaimed => hj (hs.turn.keeps_claimed hclaimed)
  cases ho : o.event with
  | none => rw [jobEvents_concat_of_event ho, hold]
  | some e =>
    cases o with
    | work w e' =>
      by_cases he : jobOf e' = some j
      · obtain ⟨_, _, _, job, _, _, hget, hnot, -⟩ := hs.within rfl he
        exact absurd (hs.turn.keeps_claimed ⟨job, hget, hnot⟩) hj
      · rw [jobEvents_work_of_ne he, hold]
    | _ => cases ho

/-- **The events of a job in a history are those of the round that runs it.** -/
theorem Run.jobEvents_eq (hrun : Run allowed s₀ h S)
    (hw : S.process w = some (.running cfg p tr)) (hj : claimedIn tr = some j) :
    jobEvents j h = eventsOf j tr := by
  refine (hrun.induct (M := fun h S => ∀ w cfg p tr j, S.process w = some (.running cfg p tr) →
    claimedIn tr = some j → jobEvents j h = eventsOf j tr) Contract.none_holds (by simp) ?_).2
    w cfg p tr j hw hj
  intro h S o S' hrun hs _ ih w cfg p tr j hw hj
  -- a step that is none of a round, and after which `w` is where it was
  have hkeep (hold : S.process w = some (.running cfg p tr)) (ho : o.event = none) :
      jobEvents j (h ++ [(o, S'.world)]) = eventsOf j tr :=
    (jobEvents_concat_of_event ho).trans (ih w cfg p tr j hold hj)
  cases hs.step with
  | request r => exact hkeep hw rfl
  | clock n => exact hkeep hw rfl
  | heartbeat w' hw' => exact hkeep hw rfl
  | work w' cfg' p₀ p' tr' e s' hw' hstep =>
    by_cases hww : w = w'
    · subst hww
      obtain ⟨rfl, rfl, rfl⟩ : cfg' = cfg ∧ p' = p ∧ tr' ++ [e] = tr := by simpa using hw
      rw [jobEvents_concat, eventsOf_append]
      refine congrArg (· ++ _) ?_
      obtain ⟨cfg₁, p₁, tr₁, hw₁, hprog⟩ := hs.work w e rfl
      obtain ⟨rfl, rfl, rfl⟩ : cfg' = cfg₁ ∧ p₀ = p₁ ∧ tr' = tr₁ := by simpa [hw'] using hw₁
      cases hprog with
      | before _ h' => simp [h'] at hj
      | claims i hnone h' _ hi =>
        obtain rfl : i = j := by simpa [h'] using hj
        -- before the claim a round has asked for a log, and done nothing for the job
        rw [hrun.jobEvents_of_unclaimed hi]
        cases hs.inv.stage w cfg' p₀ tr' hw' with
        | called => rfl
        | opened log => rfl
        | passed r _ _ _ => cases hstep
        | claimed k _ _ _ htr _ _ => simp [htr] at hnone
      | within i _ h' =>
        obtain rfl : i = j := by simpa [claimedIn_append h' [e]] using hj
        exact ih w cfg' p₀ tr' i hw' h'
    · rw [set_process_ne _ _ hww] at hw
      have hold := ih w cfg p tr j hw hj
      by_cases he : jobOf e = some j
      · obtain ⟨cfg₁, p₁, tr₁, _, hw₁, hj₁, -⟩ := hs.within rfl he
        exact absurd (hs.inv.apart _ _ _ _ _ _ _ _ j hw hw₁ hj hj₁) hww
      · rw [jobEvents_work_of_ne he, hold]
  | call w' cfg' hw' =>
    by_cases hww : w = w'
    · subst hww
      obtain ⟨-, -, rfl⟩ : cfg' = cfg ∧ processNext cfg' () = p ∧ [] = tr := by simpa using hw
      cases hj
    · exact hkeep (by rwa [set_process_ne _ _ hww] at hw) rfl
  | boot cfg' s' _ _ =>
    by_cases hww : w = cfg'.workerId
    · subst hww
      simp at hw
    · exact hkeep (by rwa [set_process_ne _ _ hww] at hw) rfl
  | recover w' | ended w' | crash w' | leave w' =>
    by_cases hww : w = w'
    · subst hww
      simp at hw
    · exact hkeep (by rwa [set_process_ne _ _ hww] at hw) rfl

/-- **A step for a job in the middle of a history** is within the contract, after the events of
the job that came before it. -/
theorem Run.within_of_split (hK : K.Holds) (hrun : Run allowed s₀ (pre ++ (.work w e, s) :: post) S)
    (he : jobOf e = some j) {job : Job} (hj : S.world.jobs.get j = some job) :
    ∃ s₁ tr, jobEvents j pre = eventsOf j tr ∧ K.guarantee j job.kind s₁ tr e s := by
  have hmem : (Occurrence.work w e, s) ∈ pre ++ (.work w e, s) :: post := by simp
  obtain ⟨S₁, S₂, hrun₁, hs, -, rfl⟩ := hrun.stepped_of_split hK
  obtain ⟨cfg, p, tr, job₁, hw, hi, hj₁, -, hG, hworked⟩ := hs.within rfl he
  obtain ⟨job₂, hj₂, hkind⟩ := hworked.kind hj₁
  obtain ⟨job', hj', hkind'⟩ := hrun.kinds hmem hj₂
  obtain rfl : job = job' := by simpa [hj] using hj'
  rw [← hkind, ← hkind'] at hG
  exact ⟨_, tr, hrun₁.jobEvents_eq hw hi, hG⟩

end Runs

end System

end PalworldManager
