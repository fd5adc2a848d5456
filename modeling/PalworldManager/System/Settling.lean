/-
# Rounds settle their jobs

`settling` is the contract of `process_next` (`lifecycle/worker.py`) that the
maintenance lock rests on: when a round releases the lock of its job, and when
it is over, the job is not running any more, unless an exception of a cleanup
has escaped from the executor of a local backup or a restore.  In that case the
round has not ended the job, and its status is as the claim left it.
-/

import PalworldManager.Executors.Endings
import PalworldManager.System.Runs

namespace PalworldManager

open Effects Text
open Effects.Exec hiding bind ask

variable {L α β : Type} {j : JobId} {kind : JobKind} {s s' : World} {tr : List Ev} {e : Ev}

/-- An exception of a cleanup has escaped. -/
def Stranded (j : JobId) (kind : JobKind) (tr : List Ev) : Prop :=
  ∃ c r, .ask (j, c) r ∈ tr ∧ strands kind (.ask (j, c) r) = true

/-- The job has been ended. -/
def Finished (j : JobId) (tr : List Ev) : Prop := ∃ found new, .tx (.finish j found new) ∈ tr

/-- Only a step of a cleanup lets an exception escape. -/
theorem stepClass_of_strands (h : strands kind e = true) : stepClass e = .cleanup := by
  simp only [strands, Bool.and_eq_true] at h
  obtain ⟨-, h⟩ := h
  unfold cleanupRaises at h
  split at h <;> first | rfl | cases h

/-- The row of a job in a round that has the trace `tr`. -/
structure Rowed (j : JobId) (kind : JobKind) (s : World) (tr : List Ev) : Prop where
  row : ∃ job, s.jobs.get j = some job ∧ job.kind = kind ∧ job.status ≠ .pending ∧
    (¬Finished j tr → job.status = .running ∨ job.status = .interrupted)

/-- Job `j` is not running, or an exception has escaped. -/
def Settled (j : JobId) (kind : JobKind) (s : World) (tr : List Ev) : Prop :=
  (∃ job, s.jobs.get j = some job ∧ job.status ≠ .running) ∨ Stranded j kind tr

/-- What has ended stays ended. -/
theorem Finished.append (h : Finished j tr) (tr' : List Ev) : Finished j (tr ++ tr') := by
  obtain ⟨found, new, h⟩ := h
  exact ⟨found, new, List.mem_append_left _ h⟩

/-- What has escaped has escaped for good. -/
theorem Stranded.append (h : Stranded j kind tr) (tr' : List Ev) : Stranded j kind (tr ++ tr') := by
  obtain ⟨c, r, he, hs⟩ := h
  exact ⟨c, r, List.mem_append_left _ he, hs⟩

/-- The job of a round is in the table. -/
theorem Rowed.present (h : Rowed j kind s tr) : Present j kind s := by
  obtain ⟨job, hj, hkind, -⟩ := h.row
  exact ⟨job, hj, hkind⟩

/-- What is not running does not run again while its round lasts. -/
theorem Touched.not_running {job job' : Job} (h : Touched job job') (hs : job.status ≠ .running) :
    job'.status ≠ .running := by
  rcases h.status with ⟨h', -⟩ | ⟨h', -⟩
  · rwa [h']
  · exact absurd h' hs

/-- The other parties leave the row of a round. -/
theorem Rowed.others (h : Rowed j kind s tr) (ho : Others j s s') : Rowed j kind s' tr := by
  obtain ⟨job, hj, hkind, hnot, hfinished⟩ := h.row
  obtain ⟨job', hj', ht⟩ := ho job hj hnot
  refine ⟨job', hj', ht.kind.trans hkind, ht.not_pending hnot, fun hf => ?_⟩
  rcases ht.status with ⟨hs, -⟩ | ⟨-, hs⟩
  · exact hs ▸ hfinished hf
  · exact .inr hs

/-- And a job that is settled they leave settled. -/
theorem Settled.others (h : Settled j kind s tr) (hrow : Rowed j kind s tr) (ho : Others j s s') :
    Settled j kind s' tr := by
  obtain ⟨job₁, hj₁, -, hnot, -⟩ := hrow.row
  refine h.imp_left fun ⟨job, hj, hs⟩ => ?_
  obtain rfl : job = job₁ := by simpa [hj] using hj₁
  obtain ⟨job', hj', ht⟩ := ho job hj hnot
  exact ⟨job', hj', ht.not_running hs⟩

/-- The worker's own steps leave the row of its round. -/
theorem Rowed.worked (h : Rowed j kind s tr) (hw : Worked j s e s') :
    Rowed j kind s' (tr ++ [e]) := by
  obtain ⟨job, hj, hkind, hnot, hfinished⟩ := h.row
  rcases hw with hbusy | ⟨rfl, rfl⟩
  · rcases hbusy.cases with hp | ⟨found, new, rfl, hend⟩
    · obtain ⟨job', hj', hrow, hs⟩ := hp.row job hj
      exact ⟨job', hj', hrow.kind.trans hkind, hs ▸ hnot,
        fun hf => hs ▸ hfinished fun h => hf (h.append _)⟩
    · obtain ⟨job₁, job', hj₁, hj', hrow, -, rfl, hnew⟩ := hend.row
      obtain rfl : job = job₁ := by simpa [hj] using hj₁
      refine ⟨job', hj', hrow.kind.trans hkind, fun hp => ?_, fun hf => (hf ?_).elim⟩
      · simp [hp, JobStatus.isOutcome] at hnew
      · exact ⟨found, job'.status, by simp⟩
  · exact ⟨job, hj, hkind, hnot, fun hf => hfinished fun h => hf (h.append _)⟩

/-- A step is made on behalf of its job. -/
theorem stranded_of_worked (hw : Worked j s e s') (h : strands kind e = true) :
    Stranded j kind (tr ++ [e]) := by
  cases e with
  | tx l => simp [strands, cleanupRaises] at h
  | ask a r =>
    obtain ⟨i, c⟩ := a
    rcases hw with ⟨rfl, -⟩ | ⟨he, -⟩
    · exact ⟨c, r, by simp, h⟩
    · cases he

/-- A step that settles the job, or a step of a job that is settled. -/
theorem settled_worked (hw : Worked j s e s')
    (h : Settles j kind s e ∨ Settled j kind s tr) : Settled j kind s' (tr ++ [e]) := by
  have hstill : (∃ job, s.jobs.get j = some job ∧ job.status ≠ .running) →
      ∃ job, s'.jobs.get j = some job ∧ job.status ≠ .running := by
    rintro ⟨job, hj, hs⟩
    rcases hw with hbusy | ⟨-, rfl⟩
    · rcases hbusy.cases with hp | ⟨found, new, -, hend⟩
      · obtain ⟨job', hj', -, hs'⟩ := hp.row job hj
        exact ⟨job', hj', hs' ▸ hs⟩
      · obtain ⟨-, job', -, hj', -, -, rfl, hnew⟩ := hend.row
        exact ⟨job', hj', fun hr => by simp [hr, JobStatus.isOutcome] at hnew⟩
    · exact ⟨job, hj, hs⟩
  rcases h with (⟨found, new, rfl⟩ | hstrands | hs) | hs | hs
  · rcases hw with hbusy | ⟨he, -⟩
    · obtain ⟨-, job', -, hj', -, -, rfl, hnew⟩ := (Effect.ended hbusy found new rfl).row
      exact .inl ⟨job', hj', fun hr => by simp [hr, JobStatus.isOutcome] at hnew⟩
    · cases he
  · exact .inr (stranded_of_worked hw hstrands)
  · exact .inl (hstill hs)
  · exact .inl (hstill hs)
  · exact .inr (hs.append _)

/-- Where an exception of a cleanup has escaped, the job has not been ended. -/
def Apart (j : JobId) (kind : JobKind) (tr : List Ev) : Prop := Stranded j kind tr → ¬Finished j tr

/-- Where nothing has escaped there is nothing to show. -/
theorem apart_of_not_stranded (h : ¬Stranded j kind tr) : Apart j kind tr := fun hs => absurd hs h

/-- Only the kinds that leave a cleanup to their executor can be stranded. -/
theorem not_stranded_of_kind (h : kind.leavesCleanup = false) : ¬Stranded j kind tr := by
  rintro ⟨c, r, -, he⟩
  simp [strands, h] at he

/-- The guarantee: the lock of a job is released once the job is settled. -/
def ReleasesSettled (j : JobId) (kind : JobKind) (s : World) (tr : List Ev) (e : Ev)
    (_ : World) : Prop := e = .tx (.release j) → Settled j kind s tr

/-- A step of a body releases no lock. -/
theorem Acts.releasesSettled {A : StepClass → Prop} (h : Acts A j s e s') :
    ReleasesSettled j kind s tr e s' := by
  rintro rfl
  exact (Effect.about h.1).elim

/-- Every event of the trace is of one of the classes `A`. -/
def Only (A : StepClass → Prop) (tr : List Ev) : Prop := ∀ e ∈ tr, A (stepClass e)

/-- One more event of these classes. -/
theorem Only.append {A : StepClass → Prop} (h : Only A tr) (he : A (stepClass e)) :
    Only A (tr ++ [e]) := by
  intro e' he'
  rcases List.mem_append.mp he' with he' | he'
  · exact h e' he'
  · obtain rfl : e' = e := by simpa using he'
    exact he

/-- Without a completion the job is not ended. -/
theorem Only.not_finished (h : Only (· ≠ .finish) tr) : ¬Finished j tr :=
  fun ⟨_, _, he⟩ => h _ he rfl

/-- Without a cleanup nothing has escaped. -/
theorem Only.not_stranded (h : Only (· ≠ .cleanup) tr) : ¬Stranded j kind tr :=
  fun ⟨_, _, he, hs⟩ => h _ he (stepClass_of_strands hs)

/-- Neither a completion nor a cleanup. -/
def Still (c : StepClass) : Prop := c ≠ .finish ∧ c ≠ .cleanup

/-- A job that has been claimed, of whose row nothing has been changed. -/
structure Begun (j : JobId) (kind : JobKind) (s : World) (tr : List Ev) : Prop where
  rowed : Rowed j kind s tr
  still : Only Still tr
  wellFormed : ∀ job, s.jobs.get j = some job → job.status = .running → job.wellFormed

/-- The other parties leave a job as begun. -/
theorem Begun.others (h : Begun j kind s tr) (ho : Others j s s') : Begun j kind s' tr := by
  refine ⟨h.rowed.others ho, h.still, fun job' hj' hr => ?_⟩
  obtain ⟨job, hj, -, hnot, -⟩ := h.rowed.row
  obtain ⟨job₁, hj₁, ht⟩ := ho job hj hnot
  obtain rfl : job' = job₁ := by simpa [hj'] using hj₁
  rcases ht.status with ⟨hs, hresult⟩ | ⟨-, hs⟩
  · exact (Job.wellFormed_congr ht.kind hresult).mpr (h.wellFormed job hj (hs ▸ hr))
  · simp [hr] at hs

/-- So does a step that changes no row. -/
theorem Begun.routine (h : Begun j kind s tr) (ha : Acts (· = .routine) j s e s') :
    Begun j kind s' (tr ++ [e]) := by
  have hsame := Busy.sameJobs ha.1 ha.2
  refine ⟨h.rowed.worked (.inl ha.1), h.still.append ?_, fun job hj => ?_⟩
  · rw [show stepClass e = .routine from ha.2]
    exact ⟨nofun, nofun⟩
  · exact h.wellFormed job (by rw [← hsame.jobs, hj])

section Bodies

variable {ℓ : L} {N : α → Prop} {E : Exn → Prop}

/-- A body within a round, with what its paths pass. -/
theorem wp_settles {A : StepClass → Prop} {x : Py L α} (hall : Keeps (Acts A j) anyLocals x)
    (hx : x.Passes (Present j kind) (Settles j kind) N E ∨ Settled j kind s tr)
    (h : Rowed j kind s tr) :
    wp (Others j) (ReleasesSettled j kind) x
      (fun a _ s tr => Rowed j kind s tr ∧ (N a ∨ Settled j kind s tr))
      (fun e _ s tr => Rowed j kind s tr ∧ (E e ∨ Settled j kind s tr)) ℓ s tr := by
  rcases hx with hx | hsettled
  · exact wp_passes hall hx (fun _ _ _ ho hr => ⟨hr.others ho, fun hs => hs.others hr ho⟩)
      (fun _ _ _ _ hr ha => ⟨hr.worked (.inl ha.1), ha.releasesSettled⟩)
      (fun _ _ hr => hr.present) (fun _ _ _ _ hr ha hs => settled_worked (.inl ha.1) hs) h
  · refine wp_mono (wp_keeps (I := fun s tr => Rowed j kind s tr ∧ Settled j kind s tr) hall ?_ ?_
      ⟨h, hsettled⟩) ?_ ?_
    · exact fun _ _ _ ho hr => ⟨hr.1.others ho, hr.2.others hr.1 ho⟩
    · exact fun _ _ _ _ hr ha => ⟨⟨hr.1.worked (.inl ha.1),
        settled_worked (.inl ha.1) (.inr hr.2)⟩, ha.releasesSettled⟩
    · exact fun _ _ _ _ hq => ⟨hq.2.1, .inr hq.2.2⟩
    · exact fun _ _ _ _ hq => ⟨hq.2.1, .inr hq.2.2⟩

/-- The job of a body is settled. -/
structure Over (j : JobId) (kind : JobKind) (s : World) (tr : List Ev) : Prop where
  rowed : Rowed j kind s tr
  settled : Settled j kind s tr
  apart : Apart j kind tr

/-- The other parties leave a settled job settled. -/
theorem Over.others (h : Over j kind s tr) (ho : Others j s s') : Over j kind s' tr :=
  ⟨h.rowed.others ho, h.settled.others h.rowed ho, h.apart⟩

/-- A step that neither ends the job nor is one of a cleanup. -/
theorem Over.worked (h : Over j kind s tr) (hw : Worked j s e s') (hf : stepClass e ≠ .finish)
    (hc : stepClass e ≠ .cleanup) : Over j kind s' (tr ++ [e]) := by
  refine ⟨h.rowed.worked hw, settled_worked hw (.inr h.settled), fun hs hfin => ?_⟩
  refine h.apart ?_ ?_
  · obtain ⟨c, r, he', hs⟩ := hs
    rcases List.mem_append.mp he' with he' | he'
    · exact ⟨c, r, he', hs⟩
    · obtain rfl : .ask (j, c) r = e := by simpa using he'
      exact absurd (stepClass_of_strands hs) hc
  · obtain ⟨found, new, he'⟩ := hfin
    rcases List.mem_append.mp he' with he' | he'
    · exact ⟨found, new, he'⟩
    · obtain rfl : .tx (.finish j found new) = e := by simpa using he'
      exact absurd rfl hf

/-- A body that does not get through without settling its job. -/
theorem wp_ends {A : StepClass → Prop} {x : Py L α} (hall : Keeps (Acts A j) anyLocals x)
    (hx : Ends j kind nothing x ∨ Settled j kind s tr) (h : Rowed j kind s tr) :
    wp (Others j) (ReleasesSettled j kind) x
      (fun _ _ s tr => Rowed j kind s tr ∧ Settled j kind s tr)
      (fun _ _ s tr => Rowed j kind s tr ∧ Settled j kind s tr) ℓ s tr :=
  wp_mono (wp_settles hall hx h) (fun _ _ _ _ hq => ⟨hq.1, hq.2.resolve_left id⟩)
    fun _ _ _ _ hq => ⟨hq.1, hq.2.resolve_left id⟩

/-- A body that first reads what its job asks for. -/
theorem wp_request {A : StepClass → Prop} {f : World → Except Exn α} {g : α → Py L Unit}
    (hall : ∀ a, Keeps (Acts A j) anyLocals (g a))
    (hread : ∀ s job, s.jobs.get j = some job → job.kind = kind → job.status = .running →
      job.wellFormed → ∃ a, f s = .ok a ∧ Ends j kind nothing (g a))
    (h : Begun j kind s tr) :
    wp (Others j) (ReleasesSettled j kind) (query f >>= g)
      (fun _ _ s tr => Rowed j kind s tr ∧ Settled j kind s tr)
      (fun _ _ s tr => Rowed j kind s tr ∧ Settled j kind s tr) ℓ s tr := by
  rw [wp_bind, wp_query]
  intro s₁ ho
  have h₁ := h.others ho
  obtain ⟨job, hj, hkind, -, -⟩ := h₁.rowed.row
  have hrow : Rowed j kind s₁ (tr ++ [.tx .read]) :=
    h₁.rowed.worked (.inl (effect_read j s₁))
  have hnot (hr : job.status ≠ .running) : Settled j kind s₁ (tr ++ [.tx .read]) :=
    .inl ⟨job, hj, hr⟩
  refine ⟨fun he => (nomatch he), fun a ha => wp_ends (hall a) ?_ hrow, fun e he => ⟨hrow, hnot ?_⟩⟩
  · by_cases hr : job.status = .running
    · obtain ⟨a', ha', hends⟩ := hread s₁ job hj hkind hr (h₁.wellFormed job hj hr)
      obtain rfl : a = a' := by simpa [ha] using ha'
      exact .inl hends
    · exact .inr (hnot hr)
  · intro hr
    obtain ⟨a', ha', -⟩ := hread s₁ job hj hkind hr (h₁.wellFormed job hj hr)
    simp [he] at ha'

end Bodies

section Escapes

variable {R : World → World → Prop} {ℓ : L}

/-- Nothing is asked of the steps. -/
abbrev anyStep : World → List Ev → Ev → World → Prop := fun _ _ _ _ => True

/-- A first part whose steps are of these classes, and what follows it. -/
theorem wp_only_bind (j : JobId) {A : StepClass → Prop} {x : Py L α} {f : α → Py L β}
    {Q : β → L → World → List Ev → Prop} {E : Exn → L → World → List Ev → Prop}
    (hx : Keeps (Acts A j) anyLocals x) (h : Only A tr)
    (hE : ∀ e ℓ s tr, Only A tr → E e ℓ s tr)
    (hf : ∀ a ℓ s tr, Only A tr → wp R anyStep (f a) Q E ℓ s tr) :
    wp R anyStep (x >>= f) Q E ℓ s tr :=
  wp_keeps_bind (I := fun _ tr => Only A tr) hx (fun _ _ _ _ h => h)
    (fun _ _ _ _ h ha => ⟨h.append ha.2, trivial⟩) h (fun e ℓ s tr _ h => hE e ℓ s tr h)
    fun a ℓ s tr _ h => hf a ℓ s tr h

/-- Nothing has ended the job, and no exception of a cleanup has escaped. -/
structure Clean (j : JobId) (kind : JobKind) (tr : List Ev) : Prop where
  unfinished : Only (· ≠ .finish) tr
  caught : ¬Stranded j kind tr

/-- A step that neither ends the job nor lets an exception escape. -/
theorem Clean.append (h : Clean j kind tr) (hf : stepClass e ≠ .finish)
    (hc : cleanupRaises e = false) : Clean j kind (tr ++ [e]) := by
  refine ⟨h.unfinished.append hf, fun ⟨c, r, he', hs⟩ => ?_⟩
  rcases List.mem_append.mp he' with he' | he'
  · exact h.caught ⟨c, r, he', hs⟩
  · obtain rfl : .ask (j, c) r = e := by simpa using he'
    simp [strands, hc] at hs

/-- A trace without completions and cleanups is clean. -/
theorem Only.clean (h : Only Still tr) : Clean j kind tr :=
  ⟨fun e he => (h e he).1, Only.not_stranded fun e he => (h e he).2⟩

/-- A call of a cleanup, which either answers or lets an exception escape. -/
theorem wp_cleanup {c : Call} {g : Reply c → Except Fault α} {f : α → Py L β}
    {Q : β → L → World → List Ev → Prop} {E : Exn → L → World → List Ev → Prop}
    (hcls : c.cls = .cleanup)
    (hg : ∀ r a, g r = .ok a → cleanupRaises (.ask (j, c) r) = false) (h : Clean j kind tr)
    (hE : ∀ e ℓ s tr, Only (· ≠ .finish) tr → E e ℓ s tr)
    (hf : ∀ a s tr, Clean j kind tr → wp R anyStep (f a) Q E ℓ s tr) :
    wp R anyStep (ask j c >>= fun r => ofReply (g r) >>= f) Q E ℓ s tr := by
  have hfin (r : Reply c) : stepClass (.ask (j, c) r) ≠ .finish := by simp [stepClass, hcls]
  rw [wp_bind, wp_call]
  rintro s₁ - r
  rw [wp_bind, wp_ofReply]
  exact ⟨trivial, fun a ha => hf a _ _ (h.append (hfin r) (hg r a ha)),
    fun _ _ => hE _ _ _ _ (h.unfinished.append (hfin r))⟩

/-- A removal by an executor raises where one of its calls raised. -/
theorem wp_removeManagedArtifact (path : String) (h : Clean j kind tr) :
    wp R anyStep (removeManagedArtifact j .executor path : Py L Bool)
      (fun _ _ _ tr => Clean j kind tr) (fun _ _ _ tr => Only (· ≠ .finish) tr) ℓ s tr := by
  have hunlink {s : World} {tr : List Ev} (h : Clean j kind tr) : wp R anyStep
      (do
        let isFile ← ofReply (← ask j (.isFile .executor path))
        if isFile then
          ofReply (← ask j (.unlink .executor path))
          eraseLocal j .executor path
          pure true
        else
          pure false : Py L Bool)
      (fun _ _ _ tr => Clean j kind tr) (fun _ _ _ tr => Only (· ≠ .finish) tr) ℓ s tr := by
    refine wp_cleanup rfl (fun r a hr => by rw [hr]; rfl) h (fun _ _ _ _ h => h)
      fun isFile s tr h => ?_
    rw [wp_ite]
    refine ⟨fun _ => ?_, fun _ => (wp_pure _).mpr h⟩
    refine wp_cleanup rfl (fun r a hr => by rw [hr]; rfl) h (fun _ _ _ _ h => h)
      fun _ s tr h => ?_
    rw [wp_bind, eraseLocal, wp_tx]
    exact fun s₁ _ => ⟨trivial, (wp_pure _).mpr (h.append nofun rfl)⟩
  rw [removeManagedArtifact, wp_bind, resolveManagedArtifact, wp_ite]
  refine ⟨fun _ => ?_, fun _ => ?_⟩
  · rw [wp_bind, wp_call]
    rintro s₁ - r
    rw [wp_ofReply]
    have hfin : stepClass (.ask (j, .resolve .executor path) r) ≠ .finish := nofun
    refine ⟨trivial, fun managed hr => ?_, fun _ _ => h.unfinished.append hfin⟩
    have hclean := h.append hfin (by rw [hr]; rfl)
    rw [wp_ite]
    exact ⟨fun _ => hunlink hclean, fun _ => (wp_pure _).mpr hclean⟩
  · rw [wp_pure, wp_ite]
    exact ⟨fun _ => hunlink h, fun _ => (wp_pure _).mpr h⟩

/-- The removal of an artifact that no record names. -/
theorem wp_removeUnregistered (artifact : Option BackupArtifact) (h : Clean j kind tr) :
    wp R anyStep (removeUnregistered j artifact : Py L Unit)
      (fun _ _ _ tr => Clean j kind tr) (fun _ _ _ tr => Only (· ≠ .finish) tr) ℓ s tr := by
  cases artifact with
  | none => exact (wp_pure _).mpr h
  | some a =>
    rw [removeUnregistered, wp_bind]
    exact wp_mono (wp_removeManagedArtifact _ h) (fun _ _ _ _ h => (wp_pure _).mpr h)
      fun _ _ _ _ h => h

/-- A transaction lets no exception of a cleanup escape. -/
theorem Clean.not_stranded_append {l : Label} (h : ¬Stranded j kind tr) :
    ¬Stranded j kind (tr ++ [.tx l]) := by
  rintro ⟨c, r, he, hs⟩
  rcases List.mem_append.mp he with he | he
  · exact h ⟨c, r, he, hs⟩
  · simp at he

/-- A session that comes last: where it raises, nothing has ended the job. -/
theorem wp_session_last {f : World → Except Exn (α × World)} {label : α → Label}
    (h : Only Still tr) :
    wp R anyStep (session f label : Py L α) (fun _ _ _ tr => ¬Stranded j kind tr)
      (fun _ _ _ tr => Only Still tr) ℓ s tr := by
  rw [wp_session]
  refine fun s₁ _ => ⟨fun _ _ _ => ⟨trivial, ?_⟩, fun _ _ => ⟨trivial, ?_⟩⟩
  · exact Clean.not_stranded_append h.clean.caught
  · exact h.append ⟨nofun, nofun⟩

/-- A completion at the end of a body without cleanups. -/
theorem wp_finishJob_last (write : Job → Job) (h : Only Still tr) :
    wp R anyStep (finishJob j write : Py L Unit) (fun _ _ _ tr => ¬Stranded j kind tr)
      (fun _ _ _ tr => Only Still tr) ℓ s tr := by
  rw [finishJob, wp_bind]
  exact wp_mono (wp_session_last h) (fun _ _ _ _ h => (wp_pure _).mpr h) fun _ _ _ _ h => h

/-- A completion that follows what has not stranded the job. -/
theorem wp_finishJob_caught (write : Job → Job) (h : ¬Stranded j kind tr) :
    wp R anyStep (finishJob j write : Py L Unit) (fun _ _ _ tr => ¬Stranded j kind tr)
      (fun _ _ _ tr => ¬Stranded j kind tr) ℓ s tr := by
  rw [wp_finishJob]
  exact fun s₁ _ => ⟨fun _ _ => ⟨trivial, Clean.not_stranded_append h⟩,
    fun _ => ⟨trivial, Clean.not_stranded_append h⟩⟩

end Escapes

section Bodies

variable {R : World → World → Prop}

/-- Where the job has not been ended. -/
theorem Only.apart (h : Only (· ≠ .finish) tr) : Apart j kind tr := fun _ => h.not_finished

/-- Where a local backup lets an exception of its cleanup escape, it has not ended its
job. -/
theorem wp_tryLocalBackup (automatic : Bool) (trigger : String) (ℓ : Option BackupArtifact)
    (h : Only Still tr) :
    wp R anyStep (Exec.tryCatch (runLocalBackup automatic j trigger) (handleLocalBackup j))
      (fun _ _ _ tr => Apart j kind tr) (fun _ _ _ tr => Apart j kind tr) ℓ s tr := by
  have hrun : wp R anyStep (runLocalBackup automatic j trigger)
      (fun _ _ _ tr => ¬Stranded j kind tr) (fun _ _ _ tr => Only Still tr) ℓ s tr := by
    refine wp_only_bind j (keeps_createBackup ⟨nofun, nofun⟩ ⟨nofun, nofun⟩ fun step n c =>
      keeps_backupCheckpoint (by cases c <;> exact ⟨nofun, nofun⟩) step n) h (fun _ _ _ _ h => h)
      fun artifact ℓ s tr h => ?_
    rw [wp_bind, wp_assign]
    refine wp_only_bind j (keeps_flushArtifact ⟨nofun, nofun⟩ ⟨nofun, nofun⟩ _) h
      (fun _ _ _ _ h => h) fun registered ℓ s tr h => ?_
    refine wp_only_bind j (keeps_query ⟨nofun, nofun⟩ _) h (fun _ _ _ _ h => h)
      fun retention ℓ s tr h => ?_
    refine wp_only_bind j (keeps_applyLocalRetention ⟨nofun, nofun⟩ _ _ _) h (fun _ _ _ _ h => h)
      fun deleted ℓ s tr h => ?_
    rw [wp_bind, commitSession]
    refine wp_only_bind j (keeps_storage _ ⟨nofun, nofun⟩) h (fun _ _ _ _ h => h) fun _ ℓ s tr h => ?_
    exact wp_mono (wp_session_last h) (fun _ _ _ _ h => (wp_pure _).mpr h) fun _ _ _ _ h => h
  rw [wp_tryCatch]
  refine wp_mono hrun (fun _ _ _ _ h => apart_of_not_stranded h) fun e ℓ s tr h => ?_
  have hend (status : JobStatus) (step error : String) {ℓ : Option BackupArtifact} {s : World}
      {tr : List Ev} (h : Clean j kind tr) :
      wp R anyStep (finishJob j (Job.finishFailed status step error))
        (fun _ _ _ tr => Apart j kind tr) (fun _ _ _ tr => Apart j kind tr) ℓ s tr :=
    wp_mono (wp_finishJob_caught _ h.caught) (fun _ _ _ _ h => apart_of_not_stranded h)
      fun _ _ _ _ h => apart_of_not_stranded h
  unfold handleLocalBackup
  split
  · exact hend _ _ _ h.clean
  · rw [wp_bind, wp_locals, wp_bind]
    have hclean : Clean j kind tr := h.clean
    refine wp_mono (wp_removeUnregistered _ hclean) (fun _ ℓ s tr h => ?_)
      fun _ _ _ _ h => h.apart
    rw [wp_bind]
    exact wp_mono (hend _ _ _ h) (fun _ _ _ _ h => (wp_raise _).mpr h) fun _ _ _ _ h => h

/-- The same for a restore. -/
theorem wp_tryRestore [Unicode] (driveService : Bool) (request : RestoreRequest)
    (ℓ : RestoreLocals) (h : Only Still tr) :
    wp R anyStep (Exec.tryCatch (runRestore driveService j request) (handleRestore j request))
      (fun _ _ _ tr => Apart j kind tr) (fun _ _ _ tr => Apart j kind tr) ℓ s tr := by
  have hstill : ∀ c, c ≠ .signal → c ≠ .cleanup → c ≠ .finish → Still c :=
    fun _ _ hc hf => ⟨hf, hc⟩
  have hrun : wp R anyStep (runRestore driveService j request)
      (fun _ _ _ tr => ¬Stranded j kind tr) (fun _ _ _ tr => Only Still tr) ℓ s tr := by
    refine wp_only_bind j (keeps_query ⟨nofun, nofun⟩ _) h (fun _ _ _ _ h => h)
      fun record ℓ s tr h => ?_
    refine wp_only_bind j (keeps_prepareRestore hstill _ _ _) h (fun _ _ _ _ h => h)
      fun _ ℓ s tr h => ?_
    refine wp_only_bind j (keeps_makePreventiveBackup hstill _) h (fun _ _ _ _ h => h)
      fun _ ℓ s tr h => ?_
    refine wp_only_bind j (keeps_applyRestore hstill _) h (fun _ _ _ _ h => h) fun _ ℓ s tr h => ?_
    rw [completeRestore, wp_bind, wp_locals]
    exact wp_finishJob_last _ h
  rw [wp_tryCatch]
  refine wp_mono hrun (fun _ _ _ _ h => apart_of_not_stranded h) fun e ℓ s tr h => ?_
  have hend (category message : String) {ℓ : RestoreLocals} {s : World} {tr : List Ev}
      (h : Clean j kind tr) :
      wp R anyStep (failRestore j request category message)
        (fun _ _ _ tr => Apart j kind tr) (fun _ _ _ tr => Apart j kind tr) ℓ s tr := by
    rw [failRestore, wp_bind, wp_locals]
    exact wp_mono (wp_finishJob_caught _ h.caught) (fun _ _ _ _ h => apart_of_not_stranded h)
      fun _ _ _ _ h => apart_of_not_stranded h
  unfold handleRestore
  split
  · exact hend _ _ h.clean
  · rw [wp_bind, wp_locals, wp_bind, removePreventive, wp_ite]
    have hrest {ℓ : RestoreLocals} {s : World} {tr : List Ev} (h : Clean j kind tr) :
        wp R anyStep (failRestore j request "UNEXPECTED_FAILURE"
            "O Restore falhou de forma inesperada." >>= fun _ => (Exec.raise e : Py RestoreLocals Unit))
          (fun _ _ _ tr => Apart j kind tr) (fun _ _ _ tr => Apart j kind tr) ℓ s tr := by
      rw [wp_bind]
      exact wp_mono (hend _ _ h) (fun _ _ _ _ h => (wp_raise _).mpr h) fun _ _ _ _ h => h
    refine ⟨fun _ => ?_, fun _ => (wp_pure _).mpr (hrest h.clean)⟩
    have hclean : Clean j kind tr := h.clean
    exact wp_mono (wp_removeUnregistered _ hclean) (fun _ _ _ _ h => hrest h) fun _ _ _ _ h => h.apart

end Bodies

section Executors

variable {R : World → World → Prop} {cfg : WorkerConfig} {ℓ : L}

/-- A body of a kind that leaves no cleanup to its executor. -/
theorem wp_apart_of_kind {x : Py L α} (hkind : kind.leavesCleanup = false) :
    wp R anyStep x (fun _ _ _ tr => Apart j kind tr) (fun _ _ _ tr => Apart j kind tr) ℓ s tr := by
  unfold wp
  refine Prog.safe_of_forall (fun _ _ _ _ => trivial) ?_
  rintro ⟨r, ℓ⟩ s tr
  cases r <;> exact apart_of_not_stranded (not_stranded_of_kind hkind)

/-- A body that reads what its job asks for, and settles its job or lets an exception
of its cleanup escape. -/
theorem wp_over {A : StepClass → Prop} {f : World → Except Exn α} {g : α → Py L Unit}
    (hall : ∀ a, Keeps (Acts A j) anyLocals (g a))
    (hread : ∀ s job, s.jobs.get j = some job → job.kind = kind → job.status = .running →
      job.wellFormed → ∃ a, f s = .ok a ∧ Ends j kind nothing (g a))
    (hapart : ∀ a ℓ s tr, Only Still tr → wp (Others j) anyStep (g a)
      (fun _ _ _ tr => Apart j kind tr) (fun _ _ _ tr => Apart j kind tr) ℓ s tr)
    (h : Begun j kind s tr) :
    wp (Others j) (ReleasesSettled j kind) (query f >>= g) (fun _ _ => Over j kind)
      (fun _ _ => Over j kind) ℓ s tr := by
  have hwhole : wp (Others j) anyStep (query f >>= g) (fun _ _ _ tr => Apart j kind tr)
      (fun _ _ _ tr => Apart j kind tr) ℓ s tr := by
    rw [wp_bind, wp_query]
    have hstill : Only Still (tr ++ [.tx .read]) := h.still.append ⟨nofun, nofun⟩
    refine fun s₁ _ => ⟨trivial, fun a _ => hapart a _ _ _ hstill, fun _ _ => ?_⟩
    exact Only.apart fun e he => (hstill e he).1
  refine wp_guarantee (wp_mono (wp_and (wp_request hall hread h) hwhole) ?_ ?_) fun _ _ _ _ h => h.1
  · exact fun _ _ _ _ hq => ⟨hq.1.1, hq.1.2, hq.2⟩
  · exact fun _ _ _ _ hq => ⟨hq.1.1, hq.1.2, hq.2⟩

/-- **The executors without a fallback** settle their jobs themselves. -/
theorem wp_executor [Unicode] (hkind : kind.hasFallback = false) (h : Begun j kind s tr) :
    wp (Others j) (ReleasesSettled j kind) (executor cfg j kind : Py L Unit)
      (fun _ _ => Over j kind) (fun _ _ => Over j kind) ℓ s tr := by
  cases kind with
  | localBackup =>
    rw [executor, executeLocalBackup, wp_scope]
    refine wp_over (fun trigger => keeps_tryCatch (keeps_runLocalBackup _ trigger)
      keeps_handleLocalBackup) ?_ (fun trigger ℓ _ _ => wp_tryLocalBackup _ trigger ℓ) h
    intro s job hj hkind hr hwell
    simp only [Job.wellFormed, hkind] at hwell
    obtain ⟨t, ht, hvalue⟩ := hwell
    refine ⟨t, ?_, ends_tryLocalBackup _ t⟩
    simp [getOne_of_some hj, jobTrigger, hkind, hr, hvalue, ht, Bind.bind, Except.bind]
  | restore location =>
    rw [executor, executeRestore, wp_scope]
    refine wp_over (fun request => keeps_tryCatch (keeps_runRestore _ request)
      fun e => keeps_handleRestore request e) ?_ (fun request ℓ _ _ => wp_tryRestore _ request ℓ) h
    intro s job hj hkind hr hwell
    simp only [Job.wellFormed, hkind] at hwell
    obtain ⟨request, hrequest⟩ := Option.isSome_iff_exists.mp hwell
    refine ⟨request, ?_, ends_tryRestore _ request rfl⟩
    simp [loadRestoreRequest, getOne_of_some hj, hr, hrequest, Bind.bind, Except.bind]
  | drive operation =>
    rw [executor, executeDrive]
    refine wp_over (fun request => keeps_tryCatch (keeps_runDrive _ _)
      fun e => keeps_handleDrive _ e) ?_ (fun _ _ _ _ _ => wp_apart_of_kind rfl) h
    intro s job hj hkind hr hwell
    simp only [Job.wellFormed, hkind] at hwell
    refine ⟨(operation, job.data), ?_, ends_tryDrive operation hwell⟩
    simp [driveRequest, getOne_of_some hj, hkind, hr, Bind.bind, Except.bind]
  | _ => cases hkind

/-- The executors with a fallback, and the fallback: between them they settle the job. -/
theorem ends_runClaimed [Unicode] (hkind : kind.hasFallback = true) :
    Ends j kind nothing (runClaimed cfg j kind : Py L Unit) := by
  refine passes_before (passes_tryCatch (E := anything) ?_ fun e _ => ?_)
  · exact passes_before (passes_after fun _ => ends_executor cfg hkind)
  · exact passes_bind (passes_appendLog _) fun _ _ => passes_before (ends_fallback hkind)

/-- What a job's log is told does not move the job. -/
theorem wp_over_keeps {x : Py L α} (hx : Keeps (Acts (· = .routine) j) anyLocals x)
    (h : Over j kind s tr) :
    wp (Others j) (ReleasesSettled j kind) x (fun _ _ => Over j kind) (fun _ _ => Over j kind)
      ℓ s tr := by
  refine wp_mono (wp_keeps (I := fun s tr => Over j kind s tr) hx (fun _ _ _ ho h => h.others ho)
    (fun s tr e s' h ha => ⟨h.worked (.inl ha.1) ?_ ?_, ha.releasesSettled⟩) h)
    (fun _ _ _ _ h => h.2) fun _ _ _ _ h => h.2
  · rw [ha.2]
    exact nofun
  · rw [ha.2]
    exact nofun

/-- The log of a job that is opened leaves it as it was. -/
theorem wp_openLog {Q : Unit → L → World → List Ev → Prop} {E : Exn → L → World → List Ev → Prop}
    (h : Begun j kind s tr) (hQ : ∀ s tr, Begun j kind s tr → Q () ℓ s tr) :
    wp (Others j) (ReleasesSettled j kind) (openLog j kind : Py L Unit) Q E ℓ s tr := by
  have hline (message : String) {s : World} {tr : List Ev} {Q : Unit → L → World → List Ev → Prop}
      (h : Begun j kind s tr) (hQ : ∀ s tr, Begun j kind s tr → Q () ℓ s tr) :
      wp (Others j) (ReleasesSettled j kind) (appendLog j message : Py L Unit) Q E ℓ s tr := by
    rw [wp_appendLog]
    exact fun s₁ ho r => ⟨nofun, hQ _ _ ((h.others ho).routine ⟨⟨rfl, rfl⟩, rfl⟩)⟩
  rw [openLog, wp_bind]
  refine hline _ h fun s tr h => ?_
  split
  · exact hline _ h hQ
  · exact (wp_pure _).mpr (hQ _ _ h)

/-- **Every round settles its job.** -/
theorem wp_runClaimed [Unicode] (h : Begun j kind s tr) :
    wp (Others j) (ReleasesSettled j kind) (runClaimed cfg j kind : Py L Unit)
      (fun _ _ => Over j kind) (fun _ _ => Over j kind) ℓ s tr := by
  by_cases hkind : kind.hasFallback = true
  · have hstuck : kind.leavesCleanup = false := by
      cases kind <;> first | rfl | cases hkind
    have happart {tr : List Ev} : Apart j kind tr :=
      apart_of_not_stranded (not_stranded_of_kind hstuck)
    exact wp_mono (wp_ends (keeps_runClaimed cfg kind) (.inl (ends_runClaimed hkind)) h.rowed)
      (fun _ _ _ _ h => ⟨h.1, h.2, happart⟩) fun _ _ _ _ h => ⟨h.1, h.2, happart⟩
  · rw [Bool.not_eq_true] at hkind
    have hfallback : (fallback j kind : Py L Unit) = pure () := by
      cases kind <;> first | rfl | cases hkind
    have hclosed (finished : Bool) {ℓ : L} {s : World} {tr : List Ev} (h : Over j kind s tr) :
        wp (Others j) (ReleasesSettled j kind)
          (if finished = true then closeLog j else pure () : Py L Unit) (fun _ _ => Over j kind)
          (fun _ _ => Over j kind) ℓ s tr :=
      wp_over_keeps (keeps_ite (fun _ => keeps_closeLog rfl) fun _ => keeps_pure _) h
    rw [runClaimed, wp_bind, wp_tryCatch, wp_bind, runExecutor, wp_bind]
    refine wp_openLog h fun s tr h => ?_
    refine wp_mono (wp_executor hkind h) (fun _ ℓ' s tr h => ?_) fun e ℓ' s tr h => ?_
    · exact (wp_pure _).mpr (hclosed true h)
    · rw [hfallback, wp_bind]
      have hlog : Keeps (Acts (· = .routine) j) anyLocals
          (appendLog j "Execução falhou de forma inesperada." : Py L Unit) := keeps_appendLog (by rfl) _
      refine wp_mono (wp_over_keeps hlog h) (fun _ ℓ' s tr h => ?_)
        fun _ _ _ _ h => h
      exact (wp_bind _ _).mpr ((wp_pure _).mpr ((wp_pure _).mpr (hclosed false h)))

/-- The lock is released once the job is settled. -/
theorem wp_releaseLock (h : Over j kind s tr) :
    wp (Others j) (ReleasesSettled j kind) (releaseLock j : Py L Unit) (fun _ _ => Over j kind)
      (fun _ _ => Over j kind) ℓ s tr := by
  rw [releaseLock, wp_session]
  refine fun s₁ ho => ⟨fun _ s' hs => ?_, nofun⟩
  obtain rfl : releaseMaintenanceLock j s₁ = s' := by simpa using hs
  have h₁ := h.others ho
  exact ⟨fun _ => h₁.settled, h₁.worked (.inr ⟨rfl, rfl⟩) nofun nofun⟩

/-- A round, from the claim of its job to its end. -/
theorem wp_processClaimed [Unicode] (h : Begun j kind s tr) :
    wp (Others j) (ReleasesSettled j kind) (processClaimed cfg j kind : Py L Unit)
      (fun _ _ => Over j kind) (fun _ _ => Over j kind) ℓ s tr := by
  rw [processClaimed, wp_ensuring]
  exact wp_mono (wp_runClaimed h) (fun _ _ _ _ h => wp_releaseLock h)
    fun _ _ _ _ h => wp_releaseLock h

end Executors

/-- The contract: a lock is released, and a round is over, once its job is settled. -/
def settling : Contract where
  guarantee := ReleasesSettled
  post j kind _ s tr := Over j kind s tr

/-- A job that has just been claimed has begun. -/
theorem Ready.begun {log : Except Fault String} (h : Ready j kind s) :
    Begun j kind s (claimTrace log j) := by
  obtain ⟨job, hj, hkind, hr, hwell⟩ := h.row
  refine ⟨⟨job, hj, hkind, by simp [hr], fun _ => .inl hr⟩, ?_, fun job' hj' _ => ?_⟩
  · intro e he
    simp only [claimTrace, List.mem_cons, List.not_mem_nil, or_false] at he
    rcases he with rfl | rfl <;> exact ⟨nofun, nofun⟩
  · obtain rfl : job = job' := by simpa [hj] using hj'
    exact hwell

/-- The contract holds from the claim of any job on. -/
theorem settling_holds [Unicode] : settling.Holds where
  stable _ _ _ _ _ _ ho h := h.others ho
  safe cfg j kind s log h := by
    have hround : wp (Others j) (ReleasesSettled j kind)
        (processClaimed cfg j kind >>= fun _ => pure true : Py Unit Bool) (fun _ _ => Over j kind)
        (fun _ _ => Over j kind) () s (claimTrace log j) := by
      rw [wp_bind]
      exact wp_mono (wp_processClaimed h.begun) (fun _ _ _ _ h => (wp_pure _).mpr h)
        fun _ _ _ _ h => h
    refine Prog.Safe.mono (safe_of_wp hround) ?_
    rintro ⟨r, ℓ⟩ s tr h
    cases r <;> exact h

end PalworldManager
