/-
# The job on the dashboard

`active_palworld_job` (`lifecycle/jobs.py`) picks the job that the dashboard shows by the
coordination key of the life cycle, and `_palworld_job_response` (`dashboard/router.py`)
shows it by its kind: as an action of the life cycle, and otherwise as a shutdown.  An
update has the key and neither kind (`updates/jobs.py`), so the dashboard raises while one
is active, and while the newest job with the key is an interrupted one.

A key is never written again, so the kinds that can have it are those that are enqueued
with it (`World.LifecycleKeyed`), and no two active jobs have it at once
(`Run.oneLifecycle`).
-/

import PalworldManager.System.Maintenance
import PalworldManager.System.Operations

namespace PalworldManager

open Effects Text

/-- The newest job that meets a condition: `order_by(Job.id.desc()).limit(1)`. -/
def newestJob (s : World) (p : Job → Bool) : Option (JobId × Job) :=
  (s.jobs.select (fun _ job => p job) fun x y => y.1 ≤ x.1).head?

/-- `Job.coordination_key == LIFECYCLE_COORDINATION_KEY`. -/
def Job.hasLifecycleKey (job : Job) : Bool := job.coordinationKey == some .palworldLifecycle

/-- `active_palworld_job`. -/
def activePalworldJob (s : World) : Option (JobId × Job) :=
  match newestJob s fun job => job.hasLifecycleKey && job.status.isActive with
  | some active => some active
  | none => (newestJob s Job.hasLifecycleKey).filter fun latest => latest.2.status == .interrupted

/-- `LifecycleAction.value`. -/
def LifecycleAction.value : LifecycleAction → String
  | .start => "START"
  | .stop => "STOP"
  | .restart => "RESTART"

/-- `LIFECYCLE_JOB_PREFIX`. -/
def lifecycleJobPrefix : String := "PALWORLD_"

/-- `parse_lifecycle_job_kind`. -/
def parseLifecycleJobKind (kind : String) : Except Exn LifecycleAction :=
  if lifecycleJobPrefix.toList.isPrefixOf kind.toList then
    match [LifecycleAction.start, .stop, .restart].find? fun action =>
      action.value.toList == kind.toList.drop lifecycleJobPrefix.length with
    | some action => .ok action
    | none => .error (.fault .value)
  else
    .error (.fault .value)

/-- `LifecycleJobView`. -/
structure LifecycleJobView where
  id : JobId
  action : LifecycleAction
  status : JobStatus
  progress : ℕ
  step : String
  timedOut : Option Bool
  finalState : Option String
  deriving DecidableEq, Repr

/-- `value if isinstance(value, bool) else None`. -/
def Value.onlyBool : Value → Option Bool
  | .bool b => some b
  | _ => none

/-- `value if isinstance(value, int) else None`, of which a boolean is one. -/
def Value.onlyInt : Value → Option Value
  | .int i => some (.int i)
  | .bool b => some (.bool b)
  | _ => none

/-- `lifecycle_job_view`. -/
def lifecycleJobView (j : JobId) (job : Job) : Except Exn LifecycleJobView := do
  let action ← parseLifecycleJobKind job.kind.value
  pure
    { id := j
      action := action
      status := job.status
      progress := job.progress
      step := job.step
      timedOut := (job.data.value "timed_out").onlyBool
      finalState := (job.data.value "final_state").asStr }

/-- `ShutdownJobKind(kind)`. -/
def shutdownJobKind (kind : String) : Except Exn ShutdownJobKind :=
  match [ShutdownJobKind.assisted, .forceTerm, .forceKill].find? fun k =>
    (JobKind.shutdown k).value == kind with
  | some k => .ok k
  | none => .error (.fault .value)

/-- `ShutdownJobView`. -/
structure ShutdownJobView where
  id : JobId
  requestedByUserId : Option ℕ
  kind : ShutdownJobKind
  status : JobStatus
  progress : ℕ
  step : String
  isCancellable : Bool
  remainingSeconds : Option Value
  timedOut : Option Bool
  finalState : Option String
  failure : Option String
  deriving DecidableEq, Repr

/-- `shutdown_job_view`. -/
def shutdownJobView (j : JobId) (job : Job) : Except Exn ShutdownJobView := do
  let kind ← shutdownJobKind job.kind.value
  pure
    { id := j
      requestedByUserId := job.requestedByUserId
      kind := kind
      status := job.status
      progress := job.progress
      step := job.step
      isCancellable := job.isCancellable && job.status.isActive
      remainingSeconds := (job.data.value "remaining_seconds").onlyInt
      timedOut := (job.data.value "timed_out").onlyBool
      finalState := (job.data.value "final_state").asStr
      failure := (job.data.value "failure").asStr }

/-- The job that a fragment of the dashboard shows. -/
inductive JobFragment where
  | lifecycle (view : LifecycleJobView)
  | shutdown (view : Option ShutdownJobView)
  deriving DecidableEq, Repr

/-- `_palworld_job_response`; the lines of the log, which are read with every error caught,
are left out. -/
def palworldJobResponse : Option (JobId × Job) → Except Exn JobFragment
  | none => .ok (.shutdown none)
  | some (j, job) =>
      match lifecycleJobView j job with
      | .ok view => .ok (.lifecycle view)
      | .error (.fault .value) => (shutdownJobView j job).map fun view => .shutdown (some view)
      | .error e => .error e

/-- `_active_palworld_job_response`. -/
def activePalworldJobResponse (s : World) : Except Exn JobFragment :=
  palworldJobResponse (activePalworldJob s)

/-- The kinds that a job with the key of the life cycle can have. -/
def World.LifecycleKeyed (s : World) : Prop :=
  ∀ j job, s.jobs.get j = some job → job.hasLifecycleKey = true →
    job.kind.sharesLifecycle = true

/-- No update is in the way of the dashboard: none is active, and where no job with the key
is active, the newest one is no interrupted update. -/
structure World.UpdatesAside (s : World) : Prop where
  active : ∀ j job, s.jobs.get j = some job → job.kind = .update → job.status.isActive = false
  interrupted : ∀ j job, s.jobs.get j = some job → job.kind = .update →
    job.status = .interrupted → ∃ j' job', s.jobs.get j' = some job' ∧
      job'.hasLifecycleKey = true ∧ (job'.status.isActive = true ∨ j < j')

section Newest

variable {s : World} {p : Job → Bool} {j : JobId} {job : Job}

/-- The newest job is one that meets the condition, and none that does is newer. -/
theorem newestJob_eq_some (h : newestJob s p = some (j, job)) :
    s.jobs.get j = some job ∧ p job = true ∧
      ∀ i job', s.jobs.get i = some job' → p job' = true → i ≤ j := by
  have hmem := Table.mem_select.mp (List.mem_of_head? h)
  refine ⟨hmem.1, hmem.2, fun i job' hi hp => ?_⟩
  have hsorted := s.jobs.pairwise_select (fun _ job => p job) fun x y => y.1 ≤ x.1
  have hi' : (i, job') ∈ s.jobs.select (fun _ job => p job) fun x y => y.1 ≤ x.1 :=
    Table.mem_select.mpr ⟨hi, hp⟩
  obtain ⟨rest, hrest⟩ : ∃ rest, s.jobs.select (fun _ job => p job) (fun x y => y.1 ≤ x.1) =
      (j, job) :: rest := List.head?_eq_some_iff.mp h
  rw [hrest] at hsorted hi'
  rcases List.mem_cons.mp hi' with heq | hi'
  · exact Nat.le_of_eq (congrArg Prod.fst heq)
  · exact (List.pairwise_cons.mp hsorted).1 _ hi'

/-- Where no newest job is found, no job meets the condition. -/
theorem newestJob_eq_none (h : newestJob s p = none) (hj : s.jobs.get j = some job) :
    p job = false := by
  rw [Bool.eq_false_iff]
  intro hp
  have hmem : (j, job) ∈ s.jobs.select (fun _ job => p job) fun x y => y.1 ≤ x.1 :=
    Table.mem_select.mpr ⟨hj, hp⟩
  rw [List.head?_eq_none_iff.mp h] at hmem
  cases hmem

end Newest

section Views

variable {j : JobId} {job : Job}

/-- `lifecycle_job_view` raises nothing but `ValueError`. -/
theorem lifecycleJobView_error {e : Exn} (h : lifecycleJobView j job = .error e) :
    e = .fault .value := by
  unfold lifecycleJobView parseLifecycleJobKind at h
  split_ifs at h
  · split at h
    · cases h
    · cases h
      rfl
  · cases h
    rfl

/-- One of the two views accepts a job with the key exactly if it is no update. -/
theorem isOk_views (h : job.kind.sharesLifecycle = true) :
    ((lifecycleJobView j job).isOk = true ∨ (shutdownJobView j job).isOk = true) ↔
      job.kind ≠ .update := by
  have hlifecycle : (lifecycleJobView j job).isOk = (parseLifecycleJobKind job.kind.value).isOk := by
    rw [lifecycleJobView]
    cases parseLifecycleJobKind job.kind.value <;> rfl
  have hshutdown : (shutdownJobView j job).isOk = (shutdownJobKind job.kind.value).isOk := by
    rw [shutdownJobView]
    cases shutdownJobKind job.kind.value <;> rfl
  rw [hlifecycle, hshutdown]
  cases hkind : job.kind with
  | lifecycle action => cases action <;> simp <;> decide
  | shutdown kind => cases kind <;> simp <;> decide
  | update => simp; decide
  | _ => simp [hkind, JobKind.sharesLifecycle] at h

/-- The fragment is rendered where either view accepts the job. -/
theorem isOk_palworldJobResponse :
    (palworldJobResponse (some (j, job))).isOk = true ↔
      (lifecycleJobView j job).isOk = true ∨ (shutdownJobView j job).isOk = true := by
  unfold palworldJobResponse
  cases hview : lifecycleJobView j job with
  | ok view => simp [hview, Except.isOk, Except.toBool]
  | error e =>
    obtain rfl : e = .fault .value := lifecycleJobView_error hview
    cases hshutdown : shutdownJobView j job <;>
      simp [hview, hshutdown, Except.isOk, Except.toBool, Except.map]

/-- The dashboard answers exactly if one of the two views accepts the job. -/
theorem isOk_activePalworldJobResponse {s : World} :
    (activePalworldJobResponse s).isOk = true ↔ ∀ j job, activePalworldJob s = some (j, job) →
      (lifecycleJobView j job).isOk = true ∨ (shutdownJobView j job).isOk = true := by
  unfold activePalworldJobResponse
  cases activePalworldJob s with
  | none => simp [palworldJobResponse, Except.isOk, Except.toBool]
  | some r =>
    obtain ⟨j, job⟩ := r
    rw [isOk_palworldJobResponse]
    refine ⟨fun hok i job' heq => ?_, fun hshown => hshown j job rfl⟩
    obtain ⟨rfl, rfl⟩ : j = i ∧ job = job' := by simpa using heq
    exact hok

end Views

section Keyed

variable {s s' : World} {r : WebRequest} {o : Occurrence} {j : JobId} {job : Job}

/-- The test of the key of the life cycle. -/
theorem Job.hasLifecycleKey_iff :
    job.hasLifecycleKey = true ↔ job.coordinationKey = some .palworldLifecycle := beq_iff_eq

/-- Every kind that shares the key is one that `LIKE 'PALWORLD_%'` finds. -/
theorem JobKind.likePalworld_of_sharesLifecycle {kind : JobKind}
    (h : kind.sharesLifecycle = true) : kind.likePalworld = true := by
  rw [likePalworld_eq_isOperation]
  cases kind <;> simp_all [sharesLifecycle, isOperation]

/-- A row with the key is inserted where no active job has it. -/
theorem WebRequest.Inserts.free (h : r.Inserts s job) (hs : s.LifecycleKeyed)
    (hfresh : job.Fresh) (hkey : job.hasLifecycleKey = true) :
    activeWithKey s .palworldLifecycle = false := by
  have hkind := hfresh.lifecycleKey (Job.hasLifecycleKey_iff.mp hkey)
  cases r with
  | lifecycle action =>
    obtain ⟨-, -, hnone⟩ := h
    unfold activeWithKey
    rw [List.any_eq_false] at hnone ⊢
    rintro ⟨i, other⟩ hi hactive
    simp only [Bool.and_eq_true, beq_iff_eq] at hactive
    have hshares := hs i other (Table.mem_rows_iff.mp hi) (Job.hasLifecycleKey_iff.mpr hactive.1)
    refine hnone (i, other) hi ?_
    simp [JobKind.likePalworld_of_sharesLifecycle hshares, hactive.2]
  | assistedShutdown => exact h.2.2
  | forcedShutdown => exact h.2.2.1
  | update => exact h.2.2.2
  | updateCheck => exact h.2.2.2
  | localBackup | restore | driveCheck | hostPower =>
    rw [show job.kind = _ from h] at hkind
    cases hkind
  | driveUpload | driveDownload | driveDelete =>
    rw [show job.kind = _ from h.1] at hkind
    cases hkind
  | backupCancel | driveCancel | shutdownCancel | updateCancel | shutdownNow | settings =>
    exact h.elim

/-- No step gives the key of the life cycle to another kind. -/
theorem Turn.lifecycleKeyed (t : Turn s o s') (h : s.LifecycleKeyed) : s'.LifecycleKeyed := by
  intro j job' hj' hkey
  cases hj : s.jobs.get j with
  | none => exact (t.fresh hj hj').lifecycleKey (Job.hasLifecycleKey_iff.mp hkey)
  | some job =>
    obtain ⟨job'', hj'', hmoved⟩ := t.moved hj
    obtain rfl : job' = job'' := by simpa [hj'] using hj''
    rw [hmoved.kind]
    rw [Job.hasLifecycleKey_iff, hmoved.coordinationKey] at hkey
    exact h j job hj (Job.hasLifecycleKey_iff.mpr hkey)

/-- A new row with the key finds no active job that has it. -/
theorem Turn.inserted_free (t : Turn s o s') (hs : s.LifecycleKeyed)
    (hnone : s.jobs.get j = none) (hj : s'.jobs.get j = some job)
    (hkey : job.hasLifecycleKey = true) :
    (∃ r, o = .request r (.enqueued j)) ∧ ∀ i job', s.jobs.get i = some job' →
      job'.hasLifecycleKey = true → job'.status.isActive = false := by
  obtain ⟨hfresh, ⟨r, rfl, hr⟩ | hkind⟩ := t.inserted hnone hj
  · refine ⟨⟨r, rfl⟩, fun i job' hi hkey' => ?_⟩
    have hfree := hr.free hs hfresh hkey
    rw [Bool.eq_false_iff]
    intro hactive
    simp [activeWithKey_of_get hi (Job.hasLifecycleKey_iff.mp hkey') hactive] at hfree
  · have := hfresh.lifecycleKey (Job.hasLifecycleKey_iff.mp hkey)
    rw [hkind] at this
    cases this

/-- And none makes a second active job with it. -/
theorem Turn.keeps_oneLifecycle (t : Turn s o s') (hs : s.LifecycleKeyed)
    (h : s.AtMostOneActive Job.hasLifecycleKey) : s'.AtMostOneActive Job.hasLifecycleKey :=
  t.keeps_atMostOneActive (fun _ _ _ hkey => by rw [Job.hasLifecycleKey, hkey, Job.hasLifecycleKey])
    (fun _ _ => t.inserted_free hs) h

end Keyed

section Shown

variable {s : World} {j : JobId} {job : Job}

/-- What the dashboard's job is: the newest active job with the key, or, where none is
active, the newest of all if it is interrupted. -/
theorem activePalworldJob_eq_some (h : activePalworldJob s = some (j, job)) :
    s.jobs.get j = some job ∧ job.hasLifecycleKey = true ∧ (job.status.isActive = true ∨
      job.status = .interrupted ∧ ∀ i job', s.jobs.get i = some job' →
        job'.hasLifecycleKey = true → job'.status.isActive = false ∧ i ≤ j) := by
  unfold activePalworldJob at h
  split at h
  · rename_i active hactive
    obtain rfl : active = (j, job) := by simpa using h
    obtain ⟨hj, hp, -⟩ := newestJob_eq_some hactive
    rw [Bool.and_eq_true] at hp
    exact ⟨hj, hp.1, .inl hp.2⟩
  · rename_i hnone
    obtain ⟨hlatest, hstatus⟩ := Option.filter_eq_some_iff.mp h
    obtain ⟨hj, hkey, hnewest⟩ := newestJob_eq_some hlatest
    refine ⟨hj, hkey, .inr ⟨by simpa using hstatus, fun i job' hi hkey' => ⟨?_, hnewest i job' hi hkey'⟩⟩⟩
    simpa [hkey'] using newestJob_eq_none hnone hi

/-- The one active job with the key is the dashboard's. -/
theorem activePalworldJob_of_active (hone : s.AtMostOneActive Job.hasLifecycleKey)
    (hj : s.jobs.get j = some job) (hkey : job.hasLifecycleKey = true)
    (hactive : job.status.isActive = true) : activePalworldJob s = some (j, job) := by
  cases hnewest : newestJob s fun job => job.hasLifecycleKey && job.status.isActive with
  | none =>
    have := newestJob_eq_none hnewest hj
    simp [hkey, hactive] at this
  | some r =>
    obtain ⟨i, job'⟩ := r
    obtain ⟨hi, hp, -⟩ := newestJob_eq_some hnewest
    rw [Bool.and_eq_true] at hp
    obtain rfl := hone i j job' job hi hj hp.1 hkey hp.2 hactive
    obtain rfl : job = job' := by simpa [hj] using hi
    simp [activePalworldJob, hnewest]

/-- An interrupted job after which no job has the key is the dashboard's, where no job with
the key is active. -/
theorem activePalworldJob_of_interrupted (hj : s.jobs.get j = some job)
    (hkey : job.hasLifecycleKey = true) (hstatus : job.status = .interrupted)
    (hlast : ∀ i job', s.jobs.get i = some job' → job'.hasLifecycleKey = true →
      job'.status.isActive = false ∧ i ≤ j) : activePalworldJob s = some (j, job) := by
  have hactive : newestJob s (fun job => job.hasLifecycleKey && job.status.isActive) = none := by
    cases hnewest : newestJob s fun job => job.hasLifecycleKey && job.status.isActive with
    | none => rfl
    | some r =>
      obtain ⟨hi, hp, -⟩ := newestJob_eq_some hnewest
      rw [Bool.and_eq_true] at hp
      simp [(hlast r.1 r.2 hi hp.1).1] at hp
  cases hnewest : newestJob s Job.hasLifecycleKey with
  | none => simp [newestJob_eq_none hnewest hj] at hkey
  | some r =>
    obtain ⟨i, job'⟩ := r
    obtain ⟨hi, hkey', hle⟩ := newestJob_eq_some hnewest
    obtain rfl : i = j := Nat.le_antisymm (hlast i job' hi hkey').2 (hle j job hj hkey)
    obtain rfl : job = job' := by simpa [hj] using hi
    simp [activePalworldJob, hactive, hnewest, hstatus]

/-- The dashboard shows its job exactly where no update is in the way. -/
theorem shown_iff_updatesAside (hkinds : s.LifecycleKeyed)
    (hone : s.AtMostOneActive Job.hasLifecycleKey) (hkeyed : s.Keyed) :
    (∀ j job, activePalworldJob s = some (j, job) →
      (lifecycleJobView j job).isOk = true ∨ (shutdownJobView j job).isOk = true) ↔
      s.UpdatesAside := by
  have hupdate {j : JobId} {job : Job} (hj : s.jobs.get j = some job) (hkind : job.kind = .update) :
      job.hasLifecycleKey = true := by
    have hkey := hkeyed j job hj (by rw [hkind]; rfl)
    rw [hkind] at hkey
    exact Job.hasLifecycleKey_iff.mpr hkey
  constructor
  · intro hshown
    have hnot {j : JobId} {job : Job} (hj : s.jobs.get j = some job) (hkind : job.kind = .update)
        (hactive : activePalworldJob s = some (j, job)) : False :=
      (isOk_views (hkinds j job hj (hupdate hj hkind))).mp (hshown j job hactive) hkind
    refine ⟨fun j job hj hkind => ?_, fun j job hj hkind hstatus => ?_⟩
    · rw [Bool.eq_false_iff]
      exact fun hactive =>
        hnot hj hkind (activePalworldJob_of_active hone hj (hupdate hj hkind) hactive)
    · by_contra! hlast
      refine hnot hj hkind (activePalworldJob_of_interrupted hj (hupdate hj hkind) hstatus ?_)
      intro i job' hi hkey
      obtain ⟨hactive, hle⟩ := hlast i job' hi hkey
      exact ⟨Bool.eq_false_iff.mpr hactive, hle⟩
  · intro haside j job hactive
    obtain ⟨hj, hkey, hwhich⟩ := activePalworldJob_eq_some hactive
    refine (isOk_views (hkinds j job hj hkey)).mpr fun hkind => ?_
    rcases hwhich with hactive | ⟨hstatus, hlast⟩
    · simp [haside.active j job hj hkind] at hactive
    · obtain ⟨i, job', hi, hkey', hother⟩ := haside.interrupted j job hj hkind hstatus
      obtain ⟨hinactive, hle⟩ := hlast i job' hi hkey'
      rcases hother with hactive | hlt
      · simp [hinactive] at hactive
      · omega

end Shown

namespace System

section Runs

variable [Unicode] {allowed : Policy} {s₀ : World} {h : History} {S : System}

/-- In every run, the jobs with the key are of the kinds that are enqueued with it. -/
theorem Run.lifecycleKeyed (hrun : Run allowed s₀ h S) : S.world.LifecycleKeyed := by
  refine (hrun.induct (M := fun _ S => S.world.LifecycleKeyed) Contract.none_holds ?_ ?_).2
  · intro hs j job hj
    simp [hs.jobs] at hj
  · exact fun _ _ _ _ _ hs _ ih => hs.turn.lifecycleKeyed ih

/-- In every run, at most one active job has the key. -/
theorem Run.oneLifecycle (hrun : Run allowed s₀ h S) :
    S.world.AtMostOneActive Job.hasLifecycleKey := by
  refine (hrun.induct (M := fun _ S => S.world.AtMostOneActive Job.hasLifecycleKey)
    Contract.none_holds ?_ ?_).2
  · intro hs i j job job' hi
    simp [hs.jobs] at hi
  · exact fun _ _ _ _ hrun hs _ ih => hs.turn.keeps_oneLifecycle hrun.lifecycleKeyed ih

/-- **The dashboard's job can be shown**, in every run and in exactly the states in which no
update is in the way. -/
theorem Run.activeJob_shown_iff (hrun : Run allowed s₀ h S) :
    ((∀ j job, activePalworldJob S.world = some (j, job) →
        (lifecycleJobView j job).isOk = true ∨ (shutdownJobView j job).isOk = true) ∧
      (activePalworldJobResponse S.world).isOk = true) ↔ S.world.UpdatesAside := by
  rw [isOk_activePalworldJobResponse, and_self]
  exact shown_iff_updatesAside hrun.lifecycleKeyed hrun.oneLifecycle hrun.keyed

end Runs

/-- A database whose server knows the time zone of the default settings. -/
def zonedWorld : World := { World.installed with timezones := ["America/Sao_Paulo"] }

/-- It is as the migrations leave it. -/
theorem initial_zonedWorld : Initial zonedWorld := ⟨rfl, rfl, rfl, rfl, rfl⟩

/-- A newer build of the server is found. -/
def newerBuild : Oracle
  | (_, .steamCheck) => some (.ok ⟨"1", "2", none⟩)
  | c => smooth c

/-- While an update waits that a check has found, the dashboard raises. -/
theorem not_shown_of_update :
    ¬∀ (s₀ : World) (h : History) (S : System), @Run .ascii anyPolicy s₀ h S →
      (∀ j job, activePalworldJob S.world = some (j, job) →
        (lifecycleJobView j job).isOk = true ∨ (shutdownJobView j job).isOk = true) ∧
      (activePalworldJobResponse S.world).isOk = true := by
  intro hall
  obtain ⟨h, S, hrun, hresponse⟩ := @exists_run_from .ascii anyPolicy _ _ initial_zonedWorld
    (round .updateCheck newerBuild 18 ++ [.request (.update "ATUALIZAR")])
    (fun _ S => ((activePalworldJob S.world).any fun r => r.2.kind == .update) = true ∧
      (activePalworldJobResponse S.world).isOk = false) _ (by decide +kernel)
  obtain ⟨-, hshown⟩ := hall _ h S hrun
  simp [hresponse.2] at hshown

/-- A run to which the law applies: a start that waits is shown. -/
theorem activeJob_shown_start :
    ∃ h S, @Run .ascii anyPolicy zonedWorld h S ∧
      ((activePalworldJob S.world).any fun r => r.2.kind == .lifecycle .start) = true ∧
      (((∀ j job, activePalworldJob S.world = some (j, job) →
          (lifecycleJobView j job).isOk = true ∨ (shutdownJobView j job).isOk = true) ∧
        (activePalworldJobResponse S.world).isOk = true) ↔ S.world.UpdatesAside) := by
  obtain ⟨h, S, hrun, hstart⟩ := @exists_run_from .ascii anyPolicy _ _ initial_zonedWorld
    [.request (.lifecycle .start 1)]
    (fun _ S => ((activePalworldJob S.world).any fun r => r.2.kind == .lifecycle .start) = true)
    _ (by decide +kernel)
  exact ⟨h, S, hrun, hstart, @Run.activeJob_shown_iff .ascii anyPolicy _ h S hrun⟩

end System

end PalworldManager
