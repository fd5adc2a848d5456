/-
# One operation on the server at a time

The requests that enqueue an operation on the server (`lifecycle/jobs.py`,
`shutdown/jobs.py`, `updates/jobs.py`) each look for other active operations:
`enqueue_lifecycle_job` by the kind, `enqueue_update_check` and `enqueue_update` by
both coordination keys, and the two shutdowns by the key of the lifecycle alone.
As an update check has a key of its own (`World.Keyed`), a shutdown is accepted
while one is active; the law holds where that does not happen
(`Run.oneOperation`).
-/

import PalworldManager.System.Rows
import PalworldManager.System.Script

namespace PalworldManager

open Effects Text

/-- The kinds of the operations on the server. -/
def JobKind.isOperation : JobKind → Bool
  | .lifecycle _ | .shutdown _ | .updateCheck | .update => true
  | _ => false

/-- `enqueue_lifecycle_job` looks for every operation. -/
theorem JobKind.likePalworld_eq_isOperation (kind : JobKind) :
    kind.likePalworld = kind.isOperation := by
  cases kind with
  | lifecycle action => cases action <;> rfl
  | shutdown kind => cases kind <;> rfl
  | restore location => cases location <;> rfl
  | drive operation => cases operation <;> rfl
  | hostPower action => cases action <;> rfl
  | localBackup | updateCheck | update => rfl

/-- The coordination key of an operation. -/
def JobKind.operationKey (kind : JobKind) : CoordinationKey :=
  if kind = .updateCheck then .updateCheck else .palworldLifecycle

/-- Every operation has its coordination key. -/
def World.Keyed (s : World) : Prop :=
  ∀ j job, s.jobs.get j = some job → job.kind.isOperation = true →
    job.coordinationKey = some job.kind.operationKey

/-- At most one operation is active. -/
def World.OneOperation (s : World) : Prop :=
  ∀ i j job job', s.jobs.get i = some job → s.jobs.get j = some job' →
    job.kind.isOperation = true → job'.kind.isOperation = true →
    job.status.isActive = true → job'.status.isActive = true → i = j

/-- An update check is active. -/
def World.checking (s : World) : Bool :=
  s.jobs.rows.any fun r => r.2.kind == .updateCheck && r.2.status.isActive

/-- Whether a request for a shutdown meets every check that it makes. -/
def WebRequest.shutsDown (s : World) : WebRequest → Bool
  | .assistedShutdown minutes _ => minutes ∈ ([0, 1, 5, 10] : List ℤ) &&
      !activeWithKey s .palworldLifecycle && (lifecycleTimeout s .stop).isOk
  | .forcedShutdown source signal _ => (s.jobs.get source).any (validForcedSource signal) &&
      !activeWithKey s .palworldLifecycle && (lifecycleTimeout s .stop).isOk
  | _ => false

section Requests

variable {s s' : World} {i : JobId} {r : WebRequest} {job : Job}

/-- What is returned was not raised. -/
theorem isOk_of_eq_ok {ε α : Type} {x : Except ε α} {a : α} (h : x = .ok a) : x.isOk = true := by
  rw [h]
  rfl

/-- An accepted assisted shutdown was one that shuts down. -/
theorem shutsDown_of_assisted {minutes : ℤ} {user : ℕ}
    (h : enqueueAssistedShutdown minutes user s = .ok (i, s')) :
    (WebRequest.assistedShutdown minutes user).shutsDown s = true := by
  rw [enqueueAssistedShutdown] at h
  split_ifs at h with hminutes
  obtain ⟨_, hfree, h⟩ := except_bind_eq_ok.mp h
  obtain ⟨timeout, htimeout, -⟩ := except_bind_eq_ok.mp h
  rw [WebRequest.shutsDown, ensureNoActive_eq_ok hfree, isOk_of_eq_ok htimeout]
  simpa using hminutes

/-- So was an accepted forced one. -/
theorem shutsDown_of_forced {source : JobId} {signal : PalworldSignal} {user : ℕ}
    (h : enqueueForcedShutdown source signal user s = .ok (i, s')) :
    (WebRequest.forcedShutdown source signal user).shutsDown s = true := by
  unfold enqueueForcedShutdown at h
  split_ifs at h with hsource
  obtain ⟨_, hfree, h⟩ := except_bind_eq_ok.mp h
  obtain ⟨timeout, htimeout, -⟩ := except_bind_eq_ok.mp h
  rw [WebRequest.shutsDown, ensureNoActive_eq_ok hfree, isOk_of_eq_ok htimeout]
  simpa using hsource

/-- A session that answers with a job has not raised. -/
theorem enqueueing_eq_enqueued {x : Except Exn (JobId × World)}
    (h : (enqueueing s x).1 = .enqueued i) : ∃ s', x = .ok (i, s') := by
  cases x with
  | error e => cases h
  | ok p =>
    obtain ⟨j, s'⟩ := p
    obtain rfl : j = i := by simpa [enqueueing] using h
    exact ⟨s', rfl⟩

/-- An active job with a key is found under it. -/
theorem activeWithKey_of_get {key : CoordinationKey} (hi : s.jobs.get i = some job)
    (hkey : job.coordinationKey = some key) (hactive : job.status.isActive = true) :
    activeWithKey s key = true := by
  rw [activeWithKey, List.any_eq_true]
  exact ⟨(i, job), Table.mem_rows_iff.mpr hi, by simp [hkey, hactive]⟩

/-- Where neither key is taken, no operation is active. -/
theorem World.Keyed.not_active (h : s.Keyed)
    (hlifecycle : activeWithKey s .palworldLifecycle = false)
    (hcheck : s.checking = false) (hi : s.jobs.get i = some job)
    (hop : job.kind.isOperation = true) : job.status.isActive = false := by
  rw [Bool.eq_false_iff]
  intro hactive
  by_cases hkind : job.kind = .updateCheck
  · rw [World.checking, List.any_eq_false] at hcheck
    have := hcheck (i, job) (Table.mem_rows_iff.mpr hi)
    simp [hkind, hactive] at this
  · have hkey := h i job hi hop
    rw [JobKind.operationKey, if_neg hkind] at hkey
    simp [activeWithKey_of_get hi hkey hactive] at hlifecycle

/-- Where no active job has the key of the checks, no check is in progress. -/
theorem World.Keyed.checking_eq_false (h : s.Keyed)
    (hcheck : activeWithKey s .updateCheck = false) : s.checking = false := by
  rw [World.checking, List.any_eq_false]
  rintro ⟨i, job⟩ hmem hactive
  simp only [Bool.and_eq_true, beq_iff_eq] at hactive
  have hi : s.jobs.get i = some job := Table.mem_rows_iff.mp hmem
  have hkey := h i job hi (by rw [hactive.1]; rfl)
  rw [hactive.1, JobKind.operationKey, if_pos rfl] at hkey
  simp [activeWithKey_of_get hi hkey hactive.2] at hcheck

/-- An operation is inserted with its key. -/
theorem WebRequest.Inserts.key (h : r.Inserts s job) (hop : job.kind.isOperation = true) :
    job.coordinationKey = some job.kind.operationKey := by
  cases r with
  | lifecycle action => rw [h.1, h.2.1]; rfl
  | assistedShutdown => rw [h.1, h.2.1]; rfl
  | forcedShutdown source signal => rw [h.1, h.2.1]; cases signal <;> rfl
  | updateCheck => rw [h.1, h.2.1]; rfl
  | update => rw [h.1, h.2.1]; rfl
  | localBackup | restore | driveCheck | hostPower =>
    rw [show job.kind = _ from h] at hop
    cases hop
  | driveUpload | driveDownload | driveDelete =>
    rw [show job.kind = _ from h.1] at hop
    cases hop
  | backupCancel | driveCancel | shutdownCancel | updateCancel | shutdownNow | settings =>
    exact h.elim

/-- **An operation is inserted where none is active**, by every request but a shutdown. -/
theorem WebRequest.Inserts.alone (h : r.Inserts s job) (hk : s.Keyed)
    (hop : job.kind.isOperation = true) (hcheck : r.shutsDown s = true → s.checking = false)
    (hanswer : (handle s r).1 = .enqueued i) {j : JobId} {job' : Job}
    (hj : s.jobs.get j = some job') (hop' : job'.kind.isOperation = true) :
    job'.status.isActive = false := by
  cases r with
  | lifecycle action =>
    obtain ⟨-, -, hnone⟩ := h
    rw [List.any_eq_false] at hnone
    have hnot := hnone (j, job') (Table.mem_rows_iff.mpr hj)
    simpa [JobKind.likePalworld_eq_isOperation, hop'] using hnot
  | assistedShutdown =>
    obtain ⟨-, -, hfree⟩ := h
    obtain ⟨s', hok⟩ := enqueueing_eq_enqueued hanswer
    exact hk.not_active hfree (hcheck (shutsDown_of_assisted hok)) hj hop'
  | forcedShutdown =>
    obtain ⟨-, -, hfree, -⟩ := h
    obtain ⟨s', hok⟩ := enqueueing_eq_enqueued hanswer
    exact hk.not_active hfree (hcheck (shutsDown_of_forced hok)) hj hop'
  | updateCheck =>
    obtain ⟨-, -, hnocheck, hfree⟩ := h
    exact hk.not_active hfree (hk.checking_eq_false hnocheck) hj hop'
  | update =>
    obtain ⟨-, -, hnocheck, hfree⟩ := h
    exact hk.not_active hfree (hk.checking_eq_false hnocheck) hj hop'
  | localBackup | restore | driveCheck | hostPower =>
    rw [show job.kind = _ from h] at hop
    cases hop
  | driveUpload | driveDownload | driveDelete =>
    rw [show job.kind = _ from h.1] at hop
    cases hop
  | backupCancel | driveCancel | shutdownCancel | updateCancel | shutdownNow | settings =>
    exact h.elim

end Requests

/-- A shutdown is requested, and meets every check, while an update check is active. -/
def Occurrence.shutsDownChecking (s : World) : Occurrence → Bool
  | .request r _ => r.shutsDown s && s.checking
  | _ => false

section Turns

variable {s s' : World} {o : Occurrence}

/-- The answer to a request is that of `handle`. -/
theorem Turn.answer_eq {r : WebRequest} {answer : WebResponse}
    (t : Turn s (.request r answer) s') : answer = (handle s r).1 := by
  generalize ho : Occurrence.request r answer = o at t
  cases t with
  | requested r' =>
    obtain ⟨rfl, rfl⟩ : r = r' ∧ answer = (handle s r').1 := by simpa using ho
    rfl
  | idle hidle _ _ =>
    subst ho
    exact hidle.elim
  | recovered | swept | claimed | working => cases ho

/-- Every step leaves the jobs with the keys of their kinds. -/
theorem Turn.keyed (t : Turn s o s') (h : s.Keyed) : s'.Keyed := by
  intro j job' hj' hop
  cases hj : s.jobs.get j with
  | none =>
    rcases (t.inserted hj hj').2 with ⟨r, -, hr⟩ | hkind
    · exact hr.key hop
    · rw [hkind] at hop
      cases hop
  | some job =>
    obtain ⟨job'', hj'', hmoved⟩ := t.moved hj
    obtain rfl : job' = job'' := by simpa [hj'] using hj''
    rw [hmoved.coordinationKey, hmoved.kind]
    exact h j job hj (hmoved.kind ▸ hop)

/-- A new operation finds no other one active. -/
theorem Turn.inserted_alone (t : Turn s o s') (hk : s.Keyed)
    (ho : o.shutsDownChecking s = false) {i : JobId} {job : Job} (hnone : s.jobs.get i = none)
    (hi : s'.jobs.get i = some job) (hop : job.kind.isOperation = true) :
    (∃ r, o = .request r (.enqueued i)) ∧ ∀ j job', s.jobs.get j = some job' →
      job'.kind.isOperation = true → job'.status.isActive = false := by
  rcases (t.inserted hnone hi).2 with ⟨r, rfl, hr⟩ | hkind
  · refine ⟨⟨r, rfl⟩, fun j job' hj hop' => ?_⟩
    refine hr.alone hk hop (fun hshut => ?_) t.answer_eq.symm hj hop'
    simpa [Occurrence.shutsDownChecking, hshut] using ho
  · rw [hkind] at hop
    cases hop

/-- At most one active job meets a condition. -/
def World.AtMostOneActive (p : Job → Bool) (s : World) : Prop :=
  ∀ i j job job', s.jobs.get i = some job → s.jobs.get j = some job' →
    p job = true → p job' = true →
    job.status.isActive = true → job'.status.isActive = true → i = j

/-- A step inserts one row at most, so a condition on what is never written again stays
with one active job where a new one finds no other. -/
theorem Turn.keeps_atMostOneActive {p : Job → Bool} (t : Turn s o s')
    (hp : ∀ job job' : Job, job'.kind = job.kind → job'.coordinationKey = job.coordinationKey →
      p job' = p job)
    (halone : ∀ i job, s.jobs.get i = none → s'.jobs.get i = some job → p job = true →
      (∃ r, o = .request r (.enqueued i)) ∧ ∀ j job', s.jobs.get j = some job' →
        p job' = true → job'.status.isActive = false)
    (h : s.AtMostOneActive p) : s'.AtMostOneActive p := by
  intro i j job job' hi hj hpi hpj hacti hactj
  -- a row that was there was as active as it is now
  have hbefore {k : JobId} {new old : Job} (hnew : s'.jobs.get k = some new)
      (hold : s.jobs.get k = some old) (hpk : p new = true)
      (hact : new.status.isActive = true) :
      p old = true ∧ old.status.isActive = true := by
    obtain ⟨new', hnew', hmoved⟩ := t.moved hold
    obtain rfl : new = new' := by simpa [hnew] using hnew'
    exact ⟨hp old new hmoved.kind hmoved.coordinationKey ▸ hpk, hmoved.active hact⟩
  cases hi₀ : s.jobs.get i with
  | some old =>
    obtain ⟨hold, hact⟩ := hbefore hi hi₀ hpi hacti
    cases hj₀ : s.jobs.get j with
    | some old' =>
      obtain ⟨hold', hact'⟩ := hbefore hj hj₀ hpj hactj
      exact h i j old old' hi₀ hj₀ hold hold' hact hact'
    | none =>
      obtain ⟨-, hnone⟩ := halone j job' hj₀ hj hpj
      simp [hnone i old hi₀ hold] at hact
  | none =>
    obtain ⟨⟨r, hr⟩, hnone⟩ := halone i job hi₀ hi hpi
    cases hj₀ : s.jobs.get j with
    | some old' =>
      obtain ⟨hold', hact'⟩ := hbefore hj hj₀ hpj hactj
      simp [hnone j old' hj₀ hold'] at hact'
    | none =>
      obtain ⟨⟨r', hr'⟩, -⟩ := halone j job' hj₀ hj hpj
      rw [hr] at hr'
      exact WebResponse.enqueued.inj (Occurrence.request.inj hr').2

/-- **The step lemma.**  A row becomes an active operation only where there is none. -/
theorem Turn.keeps_oneOperation (t : Turn s o s') (hk : s.Keyed) (h : s.OneOperation)
    (ho : o.shutsDownChecking s = false) : s'.OneOperation :=
  t.keeps_atMostOneActive (p := fun job => job.kind.isOperation)
    (fun _ _ hkind _ => by rw [hkind]) (fun _ _ => t.inserted_alone hk ho) h

end Turns

namespace System

section Runs

variable [Unicode] {s₀ : World} {h : History} {S : System}

/-- The policy that no shutdown is accepted while an update check is active. -/
def shutdownsApart : Policy := fun S o => o.shutsDownChecking S.world = false

instance (S : System) (o : Occurrence) : Decidable (shutdownsApart S o) :=
  inferInstanceAs (Decidable (_ = _))

/-- Every operation of every run has its key. -/
theorem Run.keyed {allowed : Policy} (hrun : Run allowed s₀ h S) : S.world.Keyed := by
  refine (hrun.induct (M := fun _ S => S.world.Keyed) Contract.none_holds ?_ ?_).2
  · intro hs j job hj
    simp [hs.jobs] at hj
  · exact fun _ _ _ _ _ hs _ ih => hs.turn.keyed ih

/-- **At most one operation is active**, in every run in which no shutdown is
accepted while an update check is active. -/
theorem Run.oneOperation (hrun : Run shutdownsApart s₀ h S) : S.world.OneOperation := by
  refine (hrun.induct (M := fun _ S => S.world.OneOperation) Contract.none_holds ?_ ?_).2
  · intro hs i j job job' hi
    simp [hs.jobs] at hi
  · intro h S o S' hrun hs hallowed ih
    exact hs.turn.keeps_oneOperation hrun.keyed ih hallowed

end Runs

/-- An assisted shutdown is accepted while an update check waits. -/
theorem not_oneOperation_of_shutdown :
    ¬∀ (s₀ : World) (h : History) (S : System), @Run .ascii anyPolicy s₀ h S →
      S.world.OneOperation := by
  intro hall
  obtain ⟨h, S, hrun, hcheck, hshutdown⟩ := @exists_run .ascii anyPolicy _
    [.request .updateCheck, .request (.assistedShutdown 0 1)]
    (fun _ S => ((S.world.jobs.get 1).any fun job =>
        job.kind.isOperation && job.status.isActive) = true ∧
      ((S.world.jobs.get 2).any fun job => job.kind.isOperation && job.status.isActive) = true)
    _ (by decide +kernel)
  obtain ⟨job, hj, hop⟩ := (Option.any_eq_true ..).mp hcheck
  obtain ⟨job', hj', hop'⟩ := (Option.any_eq_true ..).mp hshutdown
  rw [Bool.and_eq_true] at hop hop'
  have := hall _ h S hrun 1 2 job job' hj hj' hop.1 hop'.1 hop.2 hop'.2
  omega

/-- A run to which the law applies: a shutdown is refused while another one waits. -/
theorem oneOperation_shutdowns :
    ∃ h S, @Run .ascii shutdownsApart World.installed h S ∧
      S.world.status 1 = some .pending ∧ S.world.OneOperation := by
  obtain ⟨h, S, hrun, hstatus⟩ := @exists_run .ascii shutdownsApart _
    [.request (.assistedShutdown 0 1), .request (.assistedShutdown 0 1), .request .updateCheck]
    (fun _ S => S.world.status 1 = some .pending) _ (by decide +kernel)
  exact ⟨h, S, hrun, hstatus, @Run.oneOperation .ascii _ h S hrun⟩

end System

end PalworldManager
