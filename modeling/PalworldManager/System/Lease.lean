/-
# The lease of the worker

The lease row names the worker that took it last (`jobs/heartbeat.py`,
`record_worker_start`), until that worker gives it back.  A heartbeat that is
rejected ends the thread that writes it and nothing else: the loop of `worker.run`
and `claim_next_job` never look at the lease, so a worker whose lease was taken
over goes on claiming jobs.  `Run.leased_iff` says when a claim is covered by the
lease: when no other worker has started since.
-/

import PalworldManager.System.Rows
import PalworldManager.System.Script

namespace PalworldManager

open Effects Text

/-- The worker that the lease row names. -/
def World.leaseholder (s : World) : Option WorkerId := s.heartbeat.map WorkerHeartbeat.workerId

/-- The worker that starts. -/
def Occurrence.boots : Occurrence → Option WorkerId
  | .boot w => some w
  | _ => none

/-- The worker that claims a job. -/
def Occurrence.claimant : Occurrence → Option WorkerId
  | .work w (.tx (.claim (some _))) => some w
  | _ => none

/-- Only a claim has a claimant. -/
theorem Occurrence.eq_of_claimant {w : WorkerId} (o : Occurrence) (h : o.claimant = some w) :
    ∃ j, o = .work w (.tx (.claim (some j))) := by
  unfold Occurrence.claimant at h
  split at h
  · obtain rfl : _ = w := by simpa using h
    exact ⟨_, rfl⟩
  · cases h

section Worlds

variable {s s' : World} {w w' : WorkerId} {e : Ev}

/-- A worker that starts holds the lease. -/
theorem recordWorkerStart_leaseholder (h : recordWorkerStart w s = .ok ((), s')) :
    s'.leaseholder = some w := by
  rw [recordWorkerStart] at h
  split at h
  · obtain rfl : _ = s' := by simpa using h
    rfl
  · split_ifs at h
    obtain rfl : _ = s' := by simpa using h
    rfl

/-- A heartbeat changes no holder. -/
@[simp]
theorem recordWorkerHeartbeat_leaseholder :
    (recordWorkerHeartbeat w s).leaseholder = s.leaseholder := by
  rw [recordWorkerHeartbeat]
  split
  · rename_i l hl
    split_ifs
    · simp [World.leaseholder, hl]
    · rfl
  · rfl

/-- A worker that gives its lease back takes it from no other. -/
theorem releaseWorkerLease_leaseholder (h : w ≠ w') :
    (releaseWorkerLease w' s).leaseholder = some w ↔ s.leaseholder = some w := by
  rw [World.leaseholder, World.leaseholder, releaseWorkerLease]
  cases s.heartbeat with
  | none => simp
  | some l =>
    by_cases hl : l.workerId = w'
    · simp [Option.filter, hl, h.symm]
    · simp [Option.filter, hl]

/-- No step of a round touches the lease. -/
theorem Turn.heartbeat_work (t : Turn s (.work w e) s') : s'.heartbeat = s.heartbeat := by
  cases t with
  | idle _ _ hwork => rw [hwork w e rfl]
  | swept => rfl
  | claimed _ _ h => exact h.heartbeat
  | working _ i _ h _ =>
    rcases h with h | ⟨-, rfl⟩
    · rcases h.cases with hp | ⟨found, new, -, hend⟩
      · exact hp.heartbeat
      · exact hend.heartbeat
    · rfl

end Worlds

namespace System

/-- The worker that was the last to start. -/
def lastStarted (h : History) : Option WorkerId := (h.filterMap fun x => x.1.boots).getLast?

/-- One more occurrence, and the worker that it starts. -/
theorem lastStarted_concat (h : History) (o : Occurrence) (s : World) :
    lastStarted (h ++ [(o, s)]) = o.boots.or (lastStarted h) := by
  rw [lastStarted, lastStarted, List.filterMap_append, List.getLast?_append]
  cases ho : o.boots <;> simp [ho]

section Runs

variable [Unicode] {allowed : Policy} {s₀ : World} {h : History} {S : System} {w : WorkerId}

/-- **The lease row names a worker that is alive** exactly if no other one has started
since. -/
theorem Run.leaseholder_iff (hrun : Run allowed s₀ h S) (hw : S.process w ≠ none) :
    S.world.leaseholder = some w ↔ lastStarted h = some w := by
  refine (hrun.induct (M := fun h S => ∀ w, S.process w ≠ none →
    (S.world.leaseholder = some w ↔ lastStarted h = some w)) Contract.none_holds (by simp) ?_).2
    w hw
  intro h S o S' _ hs _ ih w hw
  rw [lastStarted_concat]
  have hstep := hs.step
  have hturn := hs.turn
  cases hstep with
  | request r =>
    have hlease : (handle S.world r).2.leaseholder = S.world.leaseholder := by
      rw [World.leaseholder, (handle_requested S.world r).heartbeat, World.leaseholder]
    rw [hlease]
    exact ih w hw
  | clock n => exact ih w hw
  | heartbeat w' _ =>
    rw [recordWorkerHeartbeat_leaseholder]
    exact ih w hw
  | boot cfg s' hfree hlease =>
    rw [set_world, recordWorkerStart_leaseholder hlease]
    rfl
  | work w' cfg p p' tr e s' hw' _ =>
    have hlease : s'.leaseholder = S.world.leaseholder := by
      rw [World.leaseholder, show s'.heartbeat = _ from hturn.heartbeat_work, World.leaseholder]
    have halive : S.process w ≠ none := by
      by_cases hww : w = w'
      · rw [hww, hw']
        simp
      · rwa [set_process_ne _ _ hww] at hw
    rw [set_world, hlease]
    exact ih w halive
  | leave w' =>
    have hww : w ≠ w' := by
      rintro rfl
      simp at hw
    rw [set_process_ne _ _ hww] at hw
    rw [set_world, releaseWorkerLease_leaseholder hww]
    exact ih w hw
  | crash w' =>
    have hww : w ≠ w' := by
      rintro rfl
      simp at hw
    rw [set_process_ne _ _ hww] at hw
    exact ih w hw
  | recover w' cfg hw' | call w' cfg hw' | ended w' cfg b tr hw' =>
    refine ih w ?_
    by_cases hww : w = w'
    · rw [hww, hw']
      simp
    · rwa [set_process_ne _ _ hww] at hw

/-- **A job is claimed under the lease** exactly if the worker that claims it was the
last to start. -/
theorem Run.leased_iff (hrun : Run allowed s₀ h S) {pre post : History} {j : JobId} {s : World}
    (hclaim : h = pre ++ (.work w (.tx (.claim (some j))), s) :: post) :
    s.leaseholder = some w ↔ lastStarted pre = some w := by
  refine (hrun.induct (M := fun h _ => ∀ pre post w j s,
    h = pre ++ (.work w (.tx (.claim (some j))), s) :: post →
      (s.leaseholder = some w ↔ lastStarted pre = some w)) Contract.none_holds ?_ ?_).2
    pre post w j s hclaim
  · intro _ pre post w j s heq
    simp at heq
  intro h S o S' hrun hs _ ih pre post w j s heq
  rcases concat_eq_append_cons.mp heq with ⟨rfl, he, -⟩ | ⟨post', -, rfl⟩
  · obtain ⟨rfl, rfl⟩ : o = .work w (.tx (.claim (some j))) ∧ S'.world = s := by simpa using he
    obtain ⟨cfg, p, tr, hw, -⟩ := hs.work w _ rfl
    have hkept : S'.world.leaseholder = S.world.leaseholder := by
      rw [World.leaseholder, hs.turn.heartbeat_work, World.leaseholder]
    rw [hkept]
    exact hrun.leaseholder_iff (by rw [hw]; simp)
  · exact ih pre post' w j s rfl

end Runs

/-- Worker `b:2` takes over from `a:1`, which then claims a job. -/
def displacedClaim : List Command :=
  [.boot (.standard "a:1"), .recover "a:1", .clock 31, .boot (.standard "b:2"), .recover "b:2",
    .request (.lifecycle .start 1), .call "a:1", .work "a:1" smooth, .work "a:1" smooth]

/-- A worker whose lease was taken over claims a job. -/
theorem not_leased_of_takeover :
    ¬∀ (s₀ : World) (h : History) (S : System), @Run .ascii anyPolicy s₀ h S →
      ∀ w j s, (.work w (.tx (.claim (some j))), s) ∈ h → s.leaseholder = some w := by
  intro hall
  obtain ⟨h, S, hrun, hclaimed⟩ := @exists_run .ascii anyPolicy _ displacedClaim
    (fun h _ => (h.any fun x =>
      x.1.claimant == some "a:1" && x.2.leaseholder == some "b:2") = true) _ (by decide +kernel)
  obtain ⟨⟨o, s⟩, hmem, hx⟩ := List.any_eq_true.mp hclaimed
  simp only [Bool.and_eq_true, beq_iff_eq] at hx
  obtain ⟨j, rfl⟩ := o.eq_of_claimant hx.1
  have hholder := hall _ h S hrun "a:1" j s hmem
  simp [hx.2] at hholder

/-- A claim under the lease. -/
theorem leased_startingServer :
    ∃ h S pre post j s, @Run .ascii anyPolicy World.installed h S ∧
      h = pre ++ (.work "a:1" (.tx (.claim (some j))), s) :: post ∧
      s.leaseholder = some "a:1" ∧
      (s.leaseholder = some "a:1" ↔ lastStarted pre = some "a:1") := by
  obtain ⟨h, S, hrun, hclaimed⟩ := @exists_run .ascii anyPolicy _ startingServer
    (fun h _ => (h.any fun x =>
      x.1.claimant == some "a:1" && x.2.leaseholder == some "a:1") = true) _ (by decide +kernel)
  obtain ⟨⟨o, s⟩, hmem, hx⟩ := List.any_eq_true.mp hclaimed
  simp only [Bool.and_eq_true, beq_iff_eq] at hx
  obtain ⟨j, rfl⟩ := o.eq_of_claimant hx.1
  obtain ⟨pre, post, hsplit⟩ := List.append_of_mem hmem
  exact ⟨h, S, pre, post, j, s, hrun, hsplit, hx.2,
    @Run.leased_iff .ascii anyPolicy _ h S "a:1" hrun pre post j s hsplit⟩

end System

end PalworldManager
