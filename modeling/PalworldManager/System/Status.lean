/-
# Job statuses move forward

A status goes from `PENDING` to `RUNNING` to a terminal status, or from
`PENDING` to `CANCELLED`, and no job is claimed twice: `Forward`.  A claim finds
its job pending and a recovery finds it running, so a step breaks the law only if it ends a
job that is not running (`Turn.advances`).  The completion functions of the executors write the
final status whatever they find (`restores/jobs.py`, `_complete`; `shutdown/jobs.py`,
`_complete_shutdown_job`), and a worker that was displaced while its job went on does break it
(`not_forward_of_takeover`).  `PalworldManager.System.Completion` says when that happens.
-/

import PalworldManager.System.Script

namespace PalworldManager

open Effects Text

/-- The status of a job, if there is such a job. -/
def World.status (s : World) (j : JobId) : Option JobStatus := (s.jobs.get j).map Job.status

/-- How the status of a job may move in one step. -/
inductive Advance : Option JobStatus → Option JobStatus → Prop
  | stay (x : Option JobStatus) : Advance x x
  | enqueued : Advance none (some .pending)
  | claimed : Advance (some .pending) (some .running)
  | withdrawn : Advance (some .pending) (some .cancelled)
  | ended (x : JobStatus) (hx : x.isTerminal = true) : Advance (some .running) (some x)

/-- Every status moves forward. -/
def World.Advances (s s' : World) : Prop := ∀ j, Advance (s.status j) (s'.status j)

/-- What is interrupted stays so. -/
def World.KeepsInterrupted (s s' : World) : Prop :=
  ∀ j, s.status j = some .interrupted → s'.status j = some .interrupted

instance : Trans World.KeepsInterrupted World.KeepsInterrupted World.KeepsInterrupted :=
  ⟨fun h h' j hj => h' j (h j hj)⟩

/-- A status that moves forward does not leave `INTERRUPTED`. -/
theorem World.Advances.keepsInterrupted {s s' : World} (h : s.Advances s') :
    s.KeepsInterrupted s' := by
  intro j hj
  have hadvance := h j
  rw [hj] at hadvance
  generalize s'.status j = x at hadvance
  cases hadvance
  rfl

/-- The job that an occurrence claims. -/
def Occurrence.claims : Occurrence → Option JobId
  | .work _ (.tx (.claim j)) => j
  | _ => none

/-- Only a claim claims a job. -/
theorem Occurrence.eq_of_claims {j : JobId} (o : Occurrence) (h : o.claims = some j) :
    ∃ w, o = .work w (.tx (.claim (some j))) := by
  unfold Occurrence.claims at h
  split at h
  · exact ⟨_, by rw [h]⟩
  · cases h

/-- The jobs that are claimed in a history. -/
def claimedJobs (h : System.History) : List JobId := h.filterMap fun x => x.1.claims

/-- One more occurrence, and the job that it claims. -/
theorem claimedJobs_concat (h : System.History) (o : Occurrence) (s : World) :
    claimedJobs (h ++ [(o, s)]) = claimedJobs h ++ o.claims.toList := by
  rw [claimedJobs, List.filterMap_append]
  cases ho : o.claims <;> simp [claimedJobs, ho]

/-- The job that an occurrence ends. -/
def Occurrence.ends : Occurrence → Option JobId
  | .work _ (.tx (.finish j _ _)) => some j
  | _ => none

/-- The law of the statuses: each moves forward step by step, no job is claimed
twice, and a job marked `INTERRUPTED` stays so. -/
structure Forward (s₀ : World) (h : System.History) : Prop where
  steps : List.IsChain World.Advances (s₀ :: h.map Prod.snd)
  once : (claimedJobs h).Nodup
  interrupted : List.Pairwise World.KeepsInterrupted (s₀ :: h.map Prod.snd)

section Steps

variable {s s' : World} {i j : JobId} {o : Occurrence}

/-- The status of a row that is read. -/
theorem status_of_get {job : Job} (h : s.jobs.get j = some job) : s.status j = some job.status := by
  rw [World.status, h, Option.map_some]

/-- The status is read off the row alone. -/
theorem status_congr (h : s'.jobs.get j = s.jobs.get j) : s'.status j = s.status j := by
  rw [World.status, World.status, h]

/-- A status that stays as it is. -/
theorem Advance.of_eq {x y : Option JobStatus} (h : y = x) : Advance x y := h ▸ .stay x

/-- A row that was not there and is now is a fresh one. -/
theorem advance_of_fresh (hnone : s.jobs.get j = none)
    (h : ∀ job, s'.jobs.get j = some job → job.Fresh) : Advance (s.status j) (s'.status j) := by
  rw [World.status, World.status, hnone]
  cases hj : s'.jobs.get j with
  | none => exact .stay _
  | some job =>
    rw [Option.map_some, (h job hj).status]
    exact .enqueued

/-- A request moves every status forward. -/
theorem Requested.advance (h : Requested s s') : Advance (s.status j) (s'.status j) := by
  cases hj : s.jobs.get j with
  | none => exact advance_of_fresh hj fun job => h.fresh j job hj
  | some job =>
    obtain ⟨job', hj', hrow⟩ := h.rows j job hj
    rw [status_of_get hj, status_of_get hj']
    cases hrow with
    | same | stopNow | cancel => exact .stay _
    | cancelPending _ _ hpending _ =>
      rw [hpending]
      exact .withdrawn

/-- So does a recovery. -/
theorem advance_recoverInterruptedJobs :
    Advance (s.status j) ((recoverInterruptedJobs s).status j) := by
  rw [World.status, World.status, recoverInterruptedJobs_get]
  cases s.jobs.get j with
  | none => exact .stay _
  | some job =>
    simp only [Option.map_some]
    split_ifs with hr
    · rw [hr]
      exact .ended _ rfl
    · exact .stay _

/-- So does a claim. -/
theorem Claims.advance (h : Claims i s s') : Advance (s.status j) (s'.status j) := by
  by_cases hij : j = i
  · subst hij
    obtain ⟨job, w, path, hj, hpending, hj', -⟩ := h.row
    rw [status_of_get hj, status_of_get hj', hpending]
    exact .claimed
  · exact .of_eq (status_congr (h.others j hij))

/-- What the worker of job `i` does moves every status forward, if it ends the
job only while that is running. -/
theorem Worked.advance {e : Ev} (h : Worked i s e s') (hi : s.Claimed i)
    (hends : ∀ found new, e = .tx (.finish i found new) → s.status i = some .running) :
    Advance (s.status j) (s'.status j) := by
  rcases h with hbusy | ⟨-, rfl⟩
  · rcases hbusy.cases with hp | ⟨found, new, rfl, hend⟩
    · by_cases hij : j = i
      · subst hij
        obtain ⟨job, hj, -⟩ := hi
        obtain ⟨job', hj', -, hs⟩ := hp.row job hj
        rw [status_of_get hj, status_of_get hj', hs]
        exact .stay _
      · exact .of_eq (status_congr (hp.others j hij))
    · by_cases hij : j = i
      · subst hij
        obtain ⟨job, job', hj, hj', -, -, rfl, hnew⟩ := hend.row
        rw [hends found _ rfl, status_of_get hj']
        exact .ended _ (by simp [JobStatus.isActive_of_isOutcome hnew])
      · cases hj : s.jobs.get j with
        | none => exact advance_of_fresh hj fun job h => (hend.fresh j job hj h).1
        | some job => rw [status_of_get hj, status_of_get (hend.others j job hij hj)]; exact .stay _
  · exact .stay _

/-- A claim is the step of no job that is being run. -/
theorem Turn.claims {w : WorkerId} (t : Turn s (.work w (.tx (.claim (some j)))) s') :
    Claims j s s' := by
  cases t with
  | idle ho _ _ => cases ho
  | claimed _ _ h => exact h
  | working _ i _ h _ =>
    rcases h with h | ⟨he, -⟩
    · exact (Effect.about h).elim
    · cases he

/-- A claim finds its job unclaimed. -/
theorem Claims.unclaimed (h : Claims j s s') : ¬s.Claimed j := by
  rintro ⟨job, hj, hnot⟩
  obtain ⟨job', w, path, hj', hpending, -⟩ := h.row
  obtain rfl : job = job' := by simpa [hj] using hj'
  exact hnot hpending

/-- **The step lemma.** -/
theorem Turn.advances (t : Turn s o s')
    (hends : ∀ i, o.ends = some i → s.status i = some .running) : s.Advances s' := by
  intro j
  cases t with
  | requested r => exact (handle_requested s r).advance
  | idle _ h _ => exact .of_eq (status_congr (by rw [h.jobs]))
  | recovered w => exact advance_recoverInterruptedJobs
  | swept w => exact .stay _
  | claimed w i h => exact h.advance
  | working w i e h hi =>
    refine h.advance hi fun found new he => hends i ?_
    rw [he]
    rfl

end Steps

namespace System

section Runs

variable [Unicode] {allowed : Policy} {s₀ : World} {h : History} {S : System}

/-- The last world of a history. -/
theorem Run.getLast (hrun : Run allowed s₀ h S) :
    (s₀ :: h.map Prod.snd).getLast? = some S.world := by
  cases hrun with
  | start => rfl
  | step => rw [List.map_append, List.map_cons, List.map_nil, ← List.cons_append, List.getLast?_concat]

/-- **No job is claimed twice**, whatever the policy. -/
theorem Run.claims_nodup (hrun : Run allowed s₀ h S) :
    (claimedJobs h).Nodup ∧ ∀ j ∈ claimedJobs h, S.world.Claimed j := by
  refine (hrun.induct (M := fun h S => (claimedJobs h).Nodup ∧ ∀ j ∈ claimedJobs h, S.world.Claimed j)
    Contract.none_holds (by simp [claimedJobs]) ?_).2
  rintro h S o S' - hs - ⟨hnodup, hclaimed⟩
  have hkept : ∀ j ∈ claimedJobs h, S'.world.Claimed j :=
    fun j hj => hs.turn.keeps_claimed (hclaimed j hj)
  rw [claimedJobs_concat]
  cases ho : o.claims with
  | none =>
    rw [Option.toList_none, List.append_nil]
    exact ⟨hnodup, hkept⟩
  | some j =>
    obtain ⟨w, rfl⟩ := o.eq_of_claims ho
    have hclaims := hs.turn.claims
    rw [Option.toList_some]
    refine ⟨hnodup.append (List.nodup_singleton j) ?_, fun i hi => ?_⟩
    · rw [List.disjoint_singleton]
      exact fun hj => hclaims.unclaimed (hclaimed j hj)
    · rcases List.mem_append.mp hi with hi | hi
      · exact hkept i hi
      · obtain rfl : i = j := by simpa using hi
        exact hclaims.claimed

end Runs

/-- A worker runs a job that starts the server, up to the answer of the server. -/
def startingServer : List Command :=
  [.request (.lifecycle .start 1), .boot (.standard "a:1"), .recover "a:1", .call "a:1"] ++
    List.replicate 5 (.work "a:1" smooth)

/-- Another worker takes over its lease and recovers the job. -/
def takeover : List Command := [.clock 31, .boot (.standard "b:2"), .recover "b:2"]

/-- The completion of a displaced worker overwrites `INTERRUPTED`. -/
theorem not_forward_of_takeover :
    ¬∀ (s₀ : World) (h : History) (S : System), @Run .ascii anyPolicy s₀ h S → Forward s₀ h := by
  intro hall
  obtain ⟨h, S, hrun, hstatuses⟩ := @exists_run .ascii anyPolicy _
    (startingServer ++ takeover ++ [.work "a:1" smooth])
    (fun h _ => ¬(h.map fun x => x.2.status 1).Pairwise
      fun x y => x = some .interrupted → y = some .interrupted) _ (by decide +kernel)
  refine hstatuses ?_
  have hpairs := (List.pairwise_cons.mp (hall _ h S hrun).interrupted).2
  rw [List.pairwise_map] at hpairs ⊢
  exact hpairs.imp fun hkeeps => hkeeps 1

end System

end PalworldManager
