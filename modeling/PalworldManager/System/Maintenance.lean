/-
# The maintenance lock

Whenever a job that needs the maintenance lock is running, it holds it:
`World.Exclusive`.  The lock is taken by the claim and released by the `finally`
clause of `process_next` (`lifecycle/worker.py`), whatever became of the job, so
the law rests on `settling`: the job has ended by then.  An exception of the
cleanup of a local backup or of a restore breaks it, and so does it leave the job
running after `process_next` has returned; `Run.terminal_iff` says that nothing
else does.
-/

import PalworldManager.System.Rows
import PalworldManager.System.Settling

namespace PalworldManager

open Effects Text

/-- An exception of a cleanup escapes from the executor of a job. -/
def Occurrence.escapes (s : World) : Occurrence → Bool
  | .work _ (.ask (j, c) r) => (s.jobs.get j).any fun job => strands job.kind (.ask (j, c) r)
  | _ => false

/-- Every job that runs and needs the maintenance lock is its holder. -/
def World.Holds (s : World) : Prop :=
  ∀ j job, s.jobs.get j = some job → job.status = .running → job.requiresMaintenanceLock = true →
    ∃ l, s.lock = some l ∧ l.jobId = j

/-- The jobs that need the maintenance lock exclude each other. -/
structure World.Exclusive (s : World) : Prop where
  holds : s.Holds
  only : ∀ i j job job', s.jobs.get i = some job → s.jobs.get j = some job' →
    job.status = .running → job'.status = .running → job.requiresMaintenanceLock = true →
    job'.requiresMaintenanceLock = true → i = j

section Worlds

variable {s s' : World} {o : Occurrence}

/-- The one lock excludes all jobs but one. -/
theorem exclusive_of_holder (h : s.Holds) : s.Exclusive := by
  refine ⟨h, fun i j job job' hi hj hri hrj hreqi hreqj => ?_⟩
  obtain ⟨l, hl, rfl⟩ := h i job hi hri hreqi
  obtain ⟨l', hl', rfl⟩ := h j job' hj hrj hreqj
  obtain rfl : l = l' := by simpa [hl] using hl'
  rfl

/-- **The step lemma.**  The lock of a running job stays, unless its round releases it. -/
theorem Turn.holds (t : Turn s o s') (h : s.Holds)
    (hrelease : ∀ w j, o = .work w (.tx (.release j)) →
      ∀ job, s.jobs.get j = some job → job.status ≠ .running) : s'.Holds := by
  intro j job' hj' hr' hreq'
  cases hj : s.jobs.get j with
  | none =>
    have hpending := (t.fresh hj hj').status
    simp [hr'] at hpending
  | some job =>
    obtain ⟨job'', hj'', hmoved⟩ := t.moved hj
    obtain rfl : job' = job'' := by simpa [hj'] using hj''
    have hreq : job.requiresMaintenanceLock = true := hmoved.requiresMaintenanceLock ▸ hreq'
    rcases hmoved.running hr' with hr | hclaims
    · obtain ⟨l, hl, hlj⟩ := h j job hj hr hreq
      have hkept : (releaseTerminalLocks s).lock = some l :=
        releaseTerminalLocks_lock_of_running hj hr hl hlj
      cases t with
      | requested r => exact ⟨l, by rw [(handle_requested s r).lock, hl], hlj⟩
      | idle _ hsame _ => exact ⟨l, by rw [hsame.lock, hl], hlj⟩
      | recovered w => exact absurd hr' (recoverInterruptedJobs_not_running hj')
      | swept w => exact ⟨l, hkept, hlj⟩
      | claimed w i hc =>
        obtain ⟨job₁, w', path, -, -, -, hlock⟩ := hc.row
        split_ifs at hlock with hreq₁
        · simp [hkept] at hlock
        · exact ⟨l, hlock.trans hkept, hlj⟩
      | working w i e hw hi =>
        rcases hw with hbusy | ⟨rfl, rfl⟩
        · rcases hbusy.cases with hp | ⟨found, new, -, hend⟩
          · exact ⟨l, hp.lock.trans hl, hlj⟩
          · exact ⟨l, hend.lock.trans hl, hlj⟩
        · have hij : l.jobId ≠ i := by
            rintro rfl
            subst hlj
            exact hrelease w _ rfl job hj hr
          exact ⟨l, by simp [releaseMaintenanceLock, hl, hij], hlj⟩
    · obtain ⟨w, rfl⟩ := o.eq_of_claims hclaims
      obtain ⟨job₁, w', path, hj₁, -, -, hlock⟩ := t.claims.row
      obtain rfl : job = job₁ := by simpa [hj] using hj₁
      rw [if_pos hreq] at hlock
      exact ⟨_, hlock.2, rfl⟩

end Worlds

namespace System

/-- The trace of the round of a worker that has just returned normally. -/
def returned (S : System) (w : WorkerId) : Option (List Ev) :=
  match S.process w with
  | some (.running _ (.ret (.ok _, ())) tr) => some tr
  | _ => none

/-- A worker has recovered the jobs since job `j` was claimed. -/
def RecoveredSince (j : JobId) (h : History) : Prop :=
  ∃ pre post w s, h = pre ++ (.recover w, s) :: post ∧ j ∈ claimedJobs pre

/-- One more occurrence: a recovery, where the job has been claimed. -/
theorem recoveredSince_concat {h : History} {j : JobId} {o : Occurrence} {s : World} :
    RecoveredSince j (h ++ [(o, s)]) ↔
      RecoveredSince j h ∨ (∃ w, o = .recover w) ∧ j ∈ claimedJobs h := by
  constructor
  · rintro ⟨pre, post, w, s', heq, hj⟩
    rcases concat_eq_append_cons.mp heq with ⟨rfl, he, -⟩ | ⟨post', -, rfl⟩
    · obtain ⟨rfl, -⟩ : o = .recover w ∧ s = s' := by simpa using he
      exact .inr ⟨⟨w, rfl⟩, hj⟩
    · exact .inl ⟨pre, post', w, s', rfl, hj⟩
  · rintro (⟨pre, post, w, s', rfl, hj⟩ | ⟨⟨w, rfl⟩, hj⟩)
    · exact ⟨pre, post ++ [(o, s)], w, s', by simp, hj⟩
    · exact ⟨h, [], w, s, rfl, hj⟩

/-- What is recovered since its claim has been claimed. -/
theorem RecoveredSince.claimed {h : History} {j : JobId} (hr : RecoveredSince j h) :
    j ∈ claimedJobs h := by
  obtain ⟨pre, post, w, s, rfl, hj⟩ := hr
  rw [claimedJobs, List.filterMap_append]
  exact List.mem_append_left _ hj

section Runs

variable [Unicode] {allowed : Policy} {s₀ : World} {h : History} {S : System} {w : WorkerId}
  {cfg : WorkerConfig} {p : Round} {tr : List Ev} {j : JobId} {job : Job}

/-- The policy that no exception of a cleanup escapes. -/
def cleanupsCaught : Policy := fun S o => o.escapes S.world = false

instance (S : System) (o : Occurrence) : Decidable (cleanupsCaught S o) :=
  inferInstanceAs (Decidable (_ = _))

/-- A call of a job finds its row. -/
theorem Run.asked (hrun : Run allowed s₀ h S) {c : Call} {r : Reply c} {s : World}
    (hc : c ≠ .createLog) (he : (.work w (.ask (j, c) r), s) ∈ h) :
    ∃ job, s.jobs.get j = some job := by
  refine (hrun.induct (M := fun h _ => ∀ s, (.work w (.ask (j, c) r), s) ∈ h →
    ∃ job, s.jobs.get j = some job) Contract.none_holds (by simp) ?_).2 s he
  intro h S o S' _ hs _ ih s he
  rcases List.mem_append.mp he with he | he
  · exact ih s he
  · obtain ⟨rfl, rfl⟩ : .work w (.ask (j, c) r) = o ∧ s = S'.world := by simpa using he
    have hturn := hs.turn
    generalize S'.world = s' at hturn
    cases hturn with
    | idle ho _ _ => exact absurd (Prod.mk.inj ho).2 hc
    | working _ i _ hw hi =>
      rcases hw with ⟨rfl, rfl⟩ | ⟨hrelease, -⟩
      · obtain ⟨job, hj, -⟩ := hi
        exact ⟨job, hj⟩
      · cases hrelease

/-- The policy speaks of the world after a call as well. -/
theorem Run.caught (hrun : Run cleanupsCaught s₀ h S) {o : Occurrence} {s : World}
    (ho : (o, s) ∈ h) : o.escapes s = false := by
  refine (hrun.induct (M := fun h _ => ∀ o s, (o, s) ∈ h → o.escapes s = false)
    Contract.none_holds (by simp) ?_).2 o s ho
  intro h S o' S' _ hs hallowed ih o s ho
  rcases List.mem_append.mp ho with ho | ho
  · exact ih o s ho
  · obtain ⟨rfl, rfl⟩ : o = o' ∧ s = S'.world := by simpa using ho
    have hstep := hs.step
    cases hstep with
    | work _ _ _ _ _ _ _ _ hstep =>
      cases hstep with
      | tx => rfl
      | ask => exact hallowed
    | _ => rfl

/-- Where no exception of a cleanup escapes, no round is stranded. -/
theorem Run.not_stranded (hrun : Run cleanupsCaught s₀ h S)
    (hw : S.process w = some (.running cfg p tr)) (hj : S.world.jobs.get j = some job) :
    ¬Stranded j job.kind tr := by
  rintro ⟨c, r, he, hs⟩
  obtain ⟨s, hmem⟩ := hrun.trace_mem hw he
  have hc : c ≠ .createLog := by
    rintro rfl
    simp [strands, cleanupRaises] at hs
  obtain ⟨job₀, hj₀⟩ := hrun.asked hc hmem
  obtain ⟨job', hj', hkind⟩ := hrun.kinds hmem hj₀
  obtain rfl : job = job' := by simpa [hj] using hj'
  have hcaught := hrun.caught hmem
  simp only [Occurrence.escapes, hj₀, Option.any_some, ← hkind, hs] at hcaught
  cases hcaught

/-- **Maintenance exclusion**, in every run, of however many workers, in which no
exception of a cleanup escapes. -/
theorem Run.exclusive (hrun : Run cleanupsCaught s₀ h S) : S.world.Exclusive := by
  refine exclusive_of_holder (hrun.induct (M := fun _ S => S.world.Holds) settling_holds ?_ ?_).2
  · intro hs j job hj
    simp [hs.jobs] at hj
  intro h S o S' hrun hs hallowed ih
  refine hs.turn.holds ih ?_
  rintro w j rfl job hj hr
  obtain ⟨cfg, p, tr, hw, hprog⟩ := hs.work _ _ rfl
  cases hprog with
  | before _ _ he => simp at he
  | claims i _ _ he => simp at he
  | within i kind _ hi hG hworked =>
    obtain rfl : i = j := by
      rcases hworked with hbusy | ⟨he, -⟩
      · exact (Effect.about hbusy).elim
      · simpa using he.symm
    obtain ⟨job₁, hj₁, -, rfl⟩ := hi
    obtain rfl : job = job₁ := by simpa [hj] using hj₁
    rcases hG rfl with ⟨job₂, hj₂, hs₂⟩ | hstranded
    · obtain rfl : job = job₂ := by simpa [hj] using hj₂
      exact hs₂ hr
    · exact hrun.not_stranded hw hj hstranded

/-- A job is interrupted by a recovery after its claim, and by nothing else. -/
theorem Run.recoveredSince (hrun : Run allowed s₀ h S) (hj : S.world.jobs.get j = some job) :
    (job.status = .running → j ∈ claimedJobs h ∧ ¬RecoveredSince j h) ∧
      (job.status = .interrupted → RecoveredSince j h) := by
  refine (hrun.induct (M := fun h S => ∀ j job, S.world.jobs.get j = some job →
    (job.status = .running → j ∈ claimedJobs h ∧ ¬RecoveredSince j h) ∧
      (job.status = .interrupted → RecoveredSince j h)) Contract.none_holds ?_ ?_).2 j job hj
  · intro hs j job hj
    simp [hs.jobs] at hj
  intro h S o S' hrun hs _ ih j job' hj'
  rw [claimedJobs_concat, recoveredSince_concat, List.mem_append]
  cases hj : S.world.jobs.get j with
  | none =>
    have hpending := (hs.turn.fresh hj hj').status
    exact ⟨fun hr => by simp [hpending] at hr, fun hr => by simp [hpending] at hr⟩
  | some job =>
    obtain ⟨job'', hj'', hmoved⟩ := hs.turn.moved hj
    obtain rfl : job' = job'' := by simpa [hj'] using hj''
    obtain ⟨hrunning, hinterrupted⟩ := ih j job hj
    refine ⟨fun hr' => ?_, fun hi => ?_⟩
    · rcases hmoved.running hr' with hr | hclaims
      · obtain ⟨hmem, hnot⟩ := hrunning hr
        refine ⟨.inl hmem, ?_⟩
        rintro (hsince | ⟨⟨w, rfl⟩, -⟩)
        · exact hnot hsince
        · exact hs.turn.recovered_not_running hj' hr'
      · refine ⟨.inr (by simp [hclaims]), ?_⟩
        rintro (hsince | ⟨⟨w, rfl⟩, -⟩)
        · obtain ⟨w, rfl⟩ := o.eq_of_claims hclaims
          exact hs.turn.claims.unclaimed (hrun.claims_nodup.2 j hsince.claimed)
        · cases hclaims
    · rcases hmoved.interrupted hi with hi | ⟨hr, hrec⟩
      · exact .inl (hinterrupted hi)
      · exact .inr ⟨hrec, (hrunning hr).1⟩

/-- **What `process_next` leaves behind.**  The job it claimed is in a terminal status,
unless an exception of a cleanup escaped and no other worker has recovered the jobs
since. -/
theorem Run.terminal_iff (hrun : Run allowed s₀ h S) (hw : S.returned w = some tr)
    (hj : claimedIn tr = some j) :
    ∃ job, S.world.jobs.get j = some job ∧
      (job.status.isTerminal = true ↔ ¬Stranded j job.kind tr ∨ RecoveredSince j h) := by
  have hI := (hrun.induct (M := fun _ _ => True) settling_holds (fun _ => trivial)
    fun _ _ _ _ _ _ _ _ => trivial).1
  rw [returned] at hw
  split at hw
  · rename_i cfg b tr' hproc
    obtain rfl : tr' = tr := by simpa using hw
    cases hI.stage w _ _ _ hproc with
    | passed _ _ _ htr => simp [htr] at hj
    | claimed j' kind _ _ htr _ hover =>
      obtain rfl : j' = j := by simpa [htr] using hj
      obtain ⟨hrowed, hsettled, hapart⟩ := hover
      obtain ⟨job, hget, rfl, hpending, hunfinished⟩ := hrowed.row
      obtain ⟨hrunning, hinterrupted⟩ := hrun.recoveredSince hget
      have hterminal : job.status.isTerminal = true ↔ job.status ≠ .running := by
        revert hpending
        cases job.status <;> simp [JobStatus.isActive]
      refine ⟨job, hget, hterminal.trans ⟨fun hnot => ?_, ?_⟩⟩
      · by_cases hstranded : Stranded j' job.kind tr'
        · exact .inr (hinterrupted ((hunfinished (hapart hstranded)).resolve_left hnot))
        · exact .inl hstranded
      · rintro (hstranded | hsince) hr
        · obtain ⟨job₁, hget₁, hnot⟩ := hsettled.resolve_right hstranded
          obtain rfl : job = job₁ := by simpa [hget] using hget₁
          exact hnot hr
        · exact (hrunning hr).2 hsince
  · cases hw

end Runs

/-- The backup directory cannot be read: every removal of a file in it raises. -/
def unreadable : Oracle
  | (_, .resolve _ _) => some (.error .os)
  | a => smooth a

/-- A worker runs a job to the end of its round. -/
def round (r : WebRequest) (oracle : Oracle) (steps : ℕ) : List Command :=
  [.request r, .boot (.standard "a:1"), .recover "a:1", .call "a:1"] ++
    List.replicate steps (.work "a:1" oracle)

/-- A local backup whose archive can neither be registered nor removed. -/
def strandedBackup : List Command := round (.localBackup "MANUAL") unreadable 46

/-- A stranded job runs without the lock. -/
theorem not_exclusive_of_stranded :
    ¬∀ (s₀ : World) (h : History) (S : System), @Run .ascii anyPolicy s₀ h S →
      S.world.Exclusive := by
  intro hall
  obtain ⟨h, S, hrun, hlock, hrow⟩ := @exists_run .ascii anyPolicy _ strandedBackup
    (fun _ S => S.world.lock.isNone = true ∧ (S.world.jobs.get 1).any (fun job =>
      job.status == .running && job.requiresMaintenanceLock) = true) _ (by decide +kernel)
  obtain ⟨job, hj, hrow⟩ := (Option.any_eq_true ..).mp hrow
  simp only [Bool.and_eq_true, beq_iff_eq] at hrow
  obtain ⟨l, hl, -⟩ := (hall _ h S hrun).holds 1 job hj hrow.1 hrow.2
  simp [hl] at hlock

/-- A stranded job is still running when its round is over. -/
theorem not_terminal_of_stranded :
    ¬∀ (s₀ : World) (h : History) (S : System), @Run .ascii anyPolicy s₀ h S →
      ∀ w tr j, S.returned w = some tr → claimedIn tr = some j →
        ∃ job, S.world.jobs.get j = some job ∧ job.status.isTerminal = true := by
  intro hall
  obtain ⟨h, S, hrun, hreturned, hstatus⟩ := @exists_run .ascii anyPolicy _ strandedBackup
    (fun _ S => ((S.returned "a:1").bind claimedIn) = some 1 ∧
      S.world.status 1 = some .running) _ (by decide +kernel)
  obtain ⟨tr, hw, hj⟩ := Option.bind_eq_some_iff.mp hreturned
  obtain ⟨job, hget, hterminal⟩ := hall _ h S hrun "a:1" tr 1 hw hj
  obtain hs : job.status = .running := by simpa [World.status, hget] using hstatus
  simp [hs, JobStatus.isActive] at hterminal

/-- A run to which the exclusion applies. -/
theorem exclusive_startingServer :
    ∃ h S, @Run .ascii cleanupsCaught World.installed h S ∧
      S.world.status 1 = some .running ∧ S.world.Exclusive := by
  obtain ⟨h, S, hrun, hstatus⟩ := @exists_run .ascii cleanupsCaught _ startingServer
    (fun _ S => S.world.status 1 = some .running) _ (by decide +kernel)
  exact ⟨h, S, hrun, hstatus, @Run.exclusive .ascii _ h S hrun⟩

/-- A round that leaves its job in a terminal status. -/
theorem terminal_startingServer :
    ∃ h S tr, @Run .ascii anyPolicy World.installed h S ∧ S.returned "a:1" = some tr ∧
      ∃ job, S.world.jobs.get 1 = some job ∧
        (job.status.isTerminal = true ↔ ¬Stranded 1 job.kind tr ∨ RecoveredSince 1 h) := by
  obtain ⟨h, S, hrun, hreturned⟩ := @exists_run .ascii anyPolicy _
    (round (.lifecycle .start 1) smooth 9) (fun _ S => ((S.returned "a:1").bind claimedIn) = some 1)
    _ (by decide +kernel)
  obtain ⟨tr, hw, hj⟩ := Option.bind_eq_some_iff.mp hreturned
  exact ⟨h, S, tr, hrun, hw, @Run.terminal_iff .ascii _ _ h S "a:1" tr 1 hrun hw hj⟩

end System

end PalworldManager
