/-
# The rule of the system

A `Contract` says what each step of a worker guarantees while it runs a job it
has claimed, and what holds when its round is over.  `Run.inv` is the rule: if
the contract holds of a round that has just claimed its job, among other parties
that keep to `Others`, then it holds of every round in every run.  Three things
are proved along with it: the tables stay `Sound`, no two rounds run the same
job, and every step of the system is a `Turn`.
-/

import PalworldManager.System.Turns

namespace PalworldManager

open Effects Text

/-- The kind of a job never changes. -/
theorem Worked.kind {s s' : World} {j : JobId} {job : Job} {e : Ev} (h : Worked j s e s')
    (hj : s.jobs.get j = some job) :
    ∃ job', s'.jobs.get j = some job' ∧ job'.kind = job.kind := by
  rcases h with h | ⟨-, rfl⟩
  · rcases h.cases with hp | ⟨found, new, -, hend⟩
    · obtain ⟨job', hj', hrow, -⟩ := hp.row job hj
      exact ⟨job', hj', hrow.kind⟩
    · obtain ⟨job₁, job', hj₁, hj', hrow, -⟩ := hend.row
      obtain rfl : job = job₁ := by simpa [hj] using hj₁
      exact ⟨job', hj', hrow.kind⟩
  · exact ⟨job, hj, rfl⟩

/-- What holds of the tables in every reachable world: a pending job is one that
its executor can read, a record points where its location says, and a file was
put there by a job that has been claimed. -/
structure World.Sound (s : World) : Prop where
  pending : ∀ j job, s.jobs.get j = some job → job.status = .pending → job.wellFormed
  records : ∀ id r, s.backups.get id = some r → r.wellPlaced
  localFiles : ∀ n j, s.localFiles n = some j → s.Claimed j
  remoteFiles : ∀ n j, s.remoteFiles n = some j → s.Claimed j

section Sound

variable {s s' : World} {i j : JobId} {o : Occurrence}

/-- What the other parties do leaves a claimed job claimed. -/
theorem claimed_of_others (h : Others j s s') (hj : s.Claimed j) : s'.Claimed j := by
  obtain ⟨job, hget, hs⟩ := hj
  obtain ⟨job', hget', ht⟩ := h job hget hs
  exact ⟨job', hget', ht.not_pending hs⟩

/-- So does what its worker does. -/
theorem claimed_of_worked {e : Ev} (h : Worked j s e s') (hj : s.Claimed j) : s'.Claimed j := by
  obtain ⟨job, hget, hs⟩ := hj
  rcases h with h | ⟨-, rfl⟩
  · rcases h.cases with hp | ⟨found, new, -, hend⟩
    · obtain ⟨job', hget', -, hs'⟩ := hp.row job hget
      exact ⟨job', hget', hs' ▸ hs⟩
    · obtain ⟨job₁, job', -, hget', -, -, rfl, hactive⟩ := hend.row
      refine ⟨job', hget', fun hp => ?_⟩
      simp [hp, JobStatus.isOutcome] at hactive
  · exact ⟨job, hget, hs⟩

/-- After a claim the job is claimed. -/
theorem Claims.claimed (h : Claims j s s') : s'.Claimed j := by
  obtain ⟨job, w, path, -, -, hget, -⟩ := h.row
  exact ⟨_, hget, by simp [Job.claimed, Job.claim]⟩

/-- **A job that has been claimed stays claimed.** -/
theorem Turn.keeps_claimed (t : Turn s o s') (hj : s.Claimed j) : s'.Claimed j := by
  cases t with
  | requested r => exact claimed_of_others (handle_requested s r).others hj
  | idle _ h _ => exact claimed_of_others h.others hj
  | recovered w => exact claimed_of_others others_recoverInterruptedJobs hj
  | swept w => exact claimed_of_others others_releaseTerminalLocks hj
  | claimed w i h => exact claimed_of_others (others_of_claims h) hj
  | working w i e h hi =>
    by_cases hij : j = i
    · exact hij ▸ claimed_of_worked h hi
    · exact claimed_of_others (others_of_worked h hij) hj

/-- What a job must hold depends on its kind and its result. -/
theorem Job.wellFormed_congr {job job' : Job} (hk : job'.kind = job.kind)
    (hr : job'.result = job.result) : job'.wellFormed ↔ job.wellFormed := by
  have hd : job'.data = job.data := by rw [Job.data, Job.data, hr]
  simp only [Job.wellFormed, Job.restoreRequest, hk, hd]

/-- A request leaves a pending job well formed. -/
theorem RowRequested.wellFormed {job job' : Job} (h : RowRequested job job')
    (hs : job'.status = .pending) (hw : job.status = .pending → job.wellFormed) :
    job'.wellFormed := by
  cases h with
  | same => exact hw hs
  | stopNow => exact (Job.wellFormed_congr rfl rfl).mpr (hw hs)
  | cancel => exact (Job.wellFormed_congr rfl rfl).mpr (hw hs)
  | cancelPending => simp [Job.cancel] at hs

/-- A pending job after a turn was pending before with the same request, or is
fresh. -/
theorem Turn.pending (t : Turn s o s')
    (h : ∀ j job, s.jobs.get j = some job → job.status = .pending → job.wellFormed)
    {j : JobId} {job : Job} (hj : s'.jobs.get j = some job) (hs : job.status = .pending) :
    job.wellFormed := by
  cases t with
  | requested r =>
    have hreq := handle_requested s r
    cases hold : s.jobs.get j with
    | none => exact (hreq.fresh j job hold hj).wellFormed
    | some old =>
      obtain ⟨job', hj', hrow⟩ := hreq.rows j old hold
      obtain rfl : job = job' := by simpa [hj] using hj'
      exact hrow.wellFormed hs (h j old hold)
  | idle _ hsame _ => exact h j job (by rw [← hsame.jobs, hj]) hs
  | recovered w =>
    rw [recoverInterruptedJobs_get] at hj
    obtain ⟨old, hold, rfl⟩ := Option.map_eq_some_iff.mp hj
    split_ifs at hs ⊢ with hr
    · simp [Job.interrupt] at hs
    · exact h j old hold hs
  | swept w => exact h j job hj hs
  | claimed w i hc =>
    by_cases hij : j = i
    · subst hij
      obtain ⟨job', hj', hnot⟩ := hc.claimed
      obtain rfl : job = job' := by simpa [hj] using hj'
      exact absurd hs hnot
    · exact h j job (by rw [← hc.others j hij, hj]) hs
  | working w i e hwork hi =>
    by_cases hij : j = i
    · subst hij
      obtain ⟨job', hj', hnot⟩ := claimed_of_worked hwork hi
      obtain rfl : job = job' := by simpa [hj] using hj'
      exact absurd hs hnot
    · rcases hwork with hbusy | ⟨-, rfl⟩
      · rcases hbusy.cases with hp | ⟨found, new, -, hend⟩
        · exact h j job (by rw [← hp.others j hij, hj]) hs
        · cases hold : s.jobs.get j with
          | none => exact (hend.fresh j job hold hj).1.wellFormed
          | some old =>
            obtain rfl : job = old := by simpa [hj] using hend.others j old hij hold
            exact h j job hold hs
      · exact h j job hj hs

/-- Where the records and the files after a turn come from. -/
theorem Turn.stored (t : Turn s o s') :
    (∃ i, s.Claimed i ∧ Stored i s s') ∨
      s'.backups = s.backups ∧ s'.localFiles = s.localFiles ∧ s'.remoteFiles = s.remoteFiles := by
  cases t with
  | requested r =>
    have h := handle_requested s r
    exact .inr ⟨h.backups, h.localFiles, h.remoteFiles⟩
  | idle _ h _ => exact .inr ⟨h.backups, h.localFiles, h.remoteFiles⟩
  | recovered w => exact .inr ⟨rfl, rfl, rfl⟩
  | swept w => exact .inr ⟨rfl, rfl, rfl⟩
  | claimed w i h => exact .inr ⟨h.backups, h.localFiles, h.remoteFiles⟩
  | working w i e h hi =>
    rcases h with h | ⟨-, rfl⟩
    · exact .inl ⟨i, hi, h.stored⟩
    · exact .inr ⟨rfl, rfl, rfl⟩

/-- **The tables stay sound.** -/
theorem Turn.sound (t : Turn s o s') (h : s.Sound) : s'.Sound := by
  refine ⟨fun j job => t.pending h.pending, fun k r hr => ?_, fun n i hn => ?_, fun n i hn => ?_⟩
  · rcases t.stored with ⟨i, -, hs⟩ | ⟨hb, -, -⟩
    · exact (hs.records k r hr).elim (h.records k r) id
    · exact h.records k r (hb ▸ hr)
  · rcases t.stored with ⟨k, hk, hs⟩ | ⟨-, hl, -⟩
    · rcases hs.localFiles n i hn with hold | rfl
      · exact t.keeps_claimed (h.localFiles n i hold)
      · exact t.keeps_claimed hk
    · exact t.keeps_claimed (h.localFiles n i (hl ▸ hn))
  · rcases t.stored with ⟨k, hk, hs⟩ | ⟨-, -, hr⟩
    · rcases hs.remoteFiles n i hn with hold | rfl
      · exact t.keeps_claimed (h.remoteFiles n i hold)
      · exact t.keeps_claimed hk
    · exact t.keeps_claimed (h.remoteFiles n i (hr ▸ hn))

end Sound

/-- The world in which a worker has just claimed job `j`. -/
structure Ready (j : JobId) (kind : JobKind) (s : World) : Prop where
  row : ∃ job, s.jobs.get j = some job ∧ job.kind = kind ∧ job.status = .running ∧ job.wellFormed
  records : ∀ id r, s.backups.get id = some r → r.wellPlaced
  localFiles : ∀ n, s.localFiles n ≠ some j
  remoteFiles : ∀ n, s.remoteFiles n ≠ some j

/-- A claim readies its job. -/
theorem Claims.ready {s s' : World} {j : JobId} {job : Job} (h : Claims j s s') (hs : s.Sound)
    (hj : s.jobs.get j = some job) : Ready j job.kind s' := by
  obtain ⟨job', w, path, hj', hpending, hget, -⟩ := h.row
  obtain rfl : job = job' := by simpa [hj] using hj'
  have hunclaimed : ¬s.Claimed j := by
    rintro ⟨job', hj'', hnot⟩
    obtain rfl : job = job' := by simpa [hj] using hj''
    exact hnot hpending
  refine ⟨⟨_, hget, rfl, rfl, (Job.wellFormed_congr rfl rfl).mpr (hs.pending j job hj hpending)⟩,
    fun id r hr => hs.records id r (h.backups ▸ hr), fun n hn => hunclaimed ?_,
    fun n hn => hunclaimed ?_⟩
  · exact hs.localFiles n j (h.localFiles ▸ hn)
  · exact hs.remoteFiles n j (h.remoteFiles ▸ hn)

/-- What a worker guarantees while it runs job `j` of a kind, and what holds when
its round is over. -/
structure Contract where
  guarantee : JobId → JobKind → World → List Ev → Ev → World → Prop
  post : JobId → JobKind → Except Exn Bool × Unit → World → List Ev → Prop

/-- What is left of a round once job `j` is claimed. -/
def claimedRound [Unicode] (cfg : WorkerConfig) (j : JobId) (kind : JobKind) : Round :=
  (do
    processClaimed cfg j kind
    pure true : Py Unit Bool) ()

/-- What is left of a round once the log store has answered. -/
def claimRound [Unicode] (cfg : WorkerConfig) (log : Except Fault String) : Round :=
  (do
    match ← session (claimJob cfg log) (fun c => .claim (c.map Prod.fst)) with
    | none => pure false
    | some (j, kind) => do
        processClaimed cfg j kind
        pure true : Py Unit Bool) ()

/-- A round begins with the log. -/
theorem processNext_eq [Unicode] (cfg : WorkerConfig) :
    processNext cfg () = .ask (0, .createLog) (claimRound cfg) := rfl

/-- The trace of a round that has just claimed job `j`. -/
def claimTrace (log : Except Fault String) (j : JobId) : List Ev :=
  [.ask (0, .createLog) log, .tx (.claim (some j))]

/-- A contract that a round meets from the claim of its job on. -/
structure Contract.Holds [Unicode] (K : Contract) : Prop where
  stable : ∀ j kind r s s' tr, Others j s s' → K.post j kind r s tr → K.post j kind r s' tr
  safe : ∀ cfg j kind s log, Ready j kind s →
    (claimedRound cfg j kind).Safe (Others j) (K.guarantee j kind) (K.post j kind) s
      (claimTrace log j)

/-- A contract with what every worker guarantees anyway. -/
def Contract.full (K : Contract) (j : JobId) (kind : JobKind) (s : World) (tr : List Ev) (e : Ev)
    (s' : World) : Prop :=
  K.guarantee j kind s tr e s' ∧ Worked j s e s'

/-- Where a round stands in world `s`. -/
inductive Stage [Unicode] (K : Contract) (s : World) (cfg : WorkerConfig) : Round → List Ev → Prop
  | called : Stage K s cfg (processNext cfg ()) []
  | opened (log : Except Fault String) :
      Stage K s cfg (claimRound cfg log) [.ask (0, .createLog) log]
  | passed (r : Except Exn Bool × Unit) (tr : List Ev) (hr : r.1 ≠ .ok true)
      (htr : claimedIn tr = none) : Stage K s cfg (.ret r) tr
  | claimed (j : JobId) (kind : JobKind) (p : Round) (tr : List Ev) (htr : claimedIn tr = some j)
      (hj : ∃ job, s.jobs.get j = some job ∧ job.status ≠ .pending ∧ job.kind = kind)
      (hsafe : p.Safe (Others j) (K.full j kind) (K.post j kind) s tr) : Stage K s cfg p tr

section Stage

variable [Unicode] {K : Contract} {s s' : World} {cfg : WorkerConfig} {p p' : Round} {tr : List Ev}
  {e : Ev}

/-- What the step of a claim does. -/
theorem claimRound_step {log : Except Fault String}
    (h : Prog.Step s (claimRound cfg log) e s' p') :
    (e = .tx .read ∧ s' = s ∧ ∃ x, p' = .ret (.error x, ())) ∨
      (e = .tx (.claim none) ∧ s' = releaseTerminalLocks s ∧ p' = .ret (.ok false, ())) ∨
      ∃ j job, e = .tx (.claim (some j)) ∧ Claims j s s' ∧ s.jobs.get j = some job ∧
        p' = claimedRound cfg j job.kind := by
  change Prog.Step s (.tx _ _ _) e s' p' at h
  cases h
  beta_reduce
  cases hc : claimJob cfg log s with
  | error x => exact .inl ⟨rfl, rfl, x, rfl⟩
  | ok r =>
    obtain ⟨c, s'⟩ := r
    rcases claimJob_eq_ok hc with ⟨rfl, rfl⟩ | ⟨j, kind, rfl, hclaims, job, hj, rfl⟩
    · exact .inr (.inl ⟨rfl, rfl, rfl⟩)
    · exact .inr (.inr ⟨j, job, rfl, hclaims, hj, rfl⟩)

/-- What a step of a round does: nothing yet, the claim of a job that was not
claimed, or a step within the contract for the job that was. -/
inductive Progressed (K : Contract) (s : World) (tr : List Ev) (e : Ev) (s' : World) : Prop
  | before (h : claimedIn tr = none) (h' : claimedIn (tr ++ [e]) = none)
      (he : e = .tx .read ∨ e = .tx (.claim none) ∨ ∃ r, e = .ask (0, .createLog) r)
  | claims (j : JobId) (h : claimedIn tr = none) (h' : claimedIn (tr ++ [e]) = some j)
      (he : e = .tx (.claim (some j))) (hj : ¬s.Claimed j)
  | within (j : JobId) (kind : JobKind) (h : claimedIn tr = some j)
      (hj : ∃ job, s.jobs.get j = some job ∧ job.status ≠ .pending ∧ job.kind = kind)
      (hG : K.guarantee j kind s tr e s') (hworked : Worked j s e s')

/-- **One step of a round.** -/
theorem Stage.step (hK : K.Holds) (hs : s.Sound) (w : WorkerId) (hst : Stage K s cfg p tr)
    (hstep : Prog.Step s p e s' p') :
    Stage K s' cfg p' (tr ++ [e]) ∧ Turn s (.work w e) s' ∧ Progressed K s tr e s' ∧
      ∀ j, claimedIn tr ≠ some j → Others j s s' := by
  cases hst with
  | called =>
    rw [processNext_eq] at hstep
    cases hstep
    exact ⟨.opened _, .idle rfl (.refl s) fun _ _ _ => rfl, .before rfl rfl (.inr (.inr ⟨_, rfl⟩)),
      fun j _ => .refl j s⟩
  | opened log =>
    rcases claimRound_step hstep with ⟨rfl, rfl, x, rfl⟩ | ⟨rfl, rfl, rfl⟩ |
      ⟨j, job, rfl, hclaims, hj, rfl⟩
    · exact ⟨.passed _ _ (by simp) rfl, .idle rfl (.refl s') fun _ _ _ => rfl, .before rfl rfl (.inl rfl),
        fun j _ => .refl j s'⟩
    · exact ⟨.passed _ _ (by simp) rfl, .swept w, .before rfl rfl (.inr (.inl rfl)),
        fun _ _ => others_releaseTerminalLocks⟩
    · have hready := hclaims.ready hs hj
      obtain ⟨row, hrow, hkind, hrunning, -⟩ := hready.row
      refine ⟨.claimed j job.kind _ _ rfl ⟨row, hrow, by simp [hrunning], hkind⟩ ?_,
        .claimed w j hclaims, .claims j rfl rfl rfl fun hclaimed => ?_,
        fun _ _ => others_of_claims hclaims⟩
      · refine Prog.Safe.strengthen (T := fun _ => True) (hK.safe cfg j _ s' log hready) ?_
        exact ((Exec.keeps_bind (keeps_processClaimed cfg job.kind) fun _ =>
          Exec.keeps_pure true).all ()).mono (fun _ _ _ h => h) fun _ _ => trivial
      · obtain ⟨job', w', path, hj', hpending, -⟩ := hclaims.row
        obtain ⟨job'', hj'', hnot⟩ := hclaimed
        obtain rfl : job' = job'' := by simpa [hj'] using hj''
        exact hnot hpending
  | passed r => cases hstep
  | claimed j kind _ _ htr hj hsafe =>
    obtain ⟨⟨hG, hworked⟩, hsafe'⟩ := hsafe.step (Others.refl j) hstep
    obtain ⟨job, hget, hnot, hkind⟩ := hj
    obtain ⟨job', hget', hkind'⟩ := hworked.kind hget
    obtain ⟨job₁, hget₁, hnot'⟩ := claimed_of_worked hworked ⟨job, hget, hnot⟩
    obtain rfl : job' = job₁ := by simpa [hget'] using hget₁
    exact ⟨.claimed j kind _ _ (claimedIn_append htr _)
        ⟨job', hget', hnot', hkind'.trans hkind⟩ hsafe',
      .working w j e hworked ⟨job, hget, hnot⟩,
      .within j kind htr ⟨job, hget, hnot, hkind⟩ hG hworked,
      fun i hi => others_of_worked hworked fun hij => hi (hij ▸ htr)⟩

/-- A round stands where it stood whatever the other parties did. -/
theorem Stage.others (hK : K.Holds) (hst : Stage K s cfg p tr)
    (h : ∀ j, claimedIn tr = some j → Others j s s') : Stage K s' cfg p tr := by
  cases hst with
  | called => exact .called
  | opened log => exact .opened log
  | passed r _ hr htr => exact .passed r tr hr htr
  | claimed j kind _ _ htr hj hsafe =>
    have hothers := h j htr
    obtain ⟨job, hget, hnot, hkind⟩ := hj
    obtain ⟨job', hget', ht⟩ := hothers job hget hnot
    exact .claimed j kind p tr htr ⟨job', hget', ht.not_pending hnot, ht.kind.trans hkind⟩
      (hsafe.rely (fun _ _ _ => Others.trans) (hK.stable j kind) hothers)

end Stage

namespace System

section Invariant

variable [Unicode] {K : Contract} {S S' : System} {o : Occurrence}

/-- **The invariant of the system.** -/
structure Inv (K : Contract) (S : System) : Prop where
  sound : S.world.Sound
  stage : ∀ w cfg p tr, S.process w = some (.running cfg p tr) → Stage K S.world cfg p tr
  apart : ∀ w w' cfg cfg' p p' tr tr' j, S.process w = some (.running cfg p tr) →
    S.process w' = some (.running cfg' p' tr') → claimedIn tr = some j → claimedIn tr' = some j →
      w = w'

/-- The job of a round is claimed. -/
theorem Inv.claimed (hI : Inv K S) {w : WorkerId} {cfg : WorkerConfig} {p : Round} {tr : List Ev}
    {j : JobId} (hw : S.process w = some (.running cfg p tr)) (hj : claimedIn tr = some j) :
    S.world.Claimed j := by
  cases hI.stage w cfg p tr hw with
  | called => simp [claimedIn] at hj
  | opened log => simp [claimedIn] at hj
  | passed r _ _ htr => simp [htr] at hj
  | claimed i kind _ _ htr hrow _ =>
    obtain rfl : i = j := by simpa [htr] using hj
    obtain ⟨job, hget, hnot, -⟩ := hrow
    exact ⟨job, hget, hnot⟩

/-- A step of the web process, or of the clock. -/
theorem Inv.withWorld (hK : K.Holds) (hI : Inv K S) {s' : World} (hs : s'.Sound)
    (h : ∀ j, Others j S.world s') : Inv K { S with world := s' } where
  sound := hs
  stage w cfg p tr hw := (hI.stage w cfg p tr hw).others hK fun j _ => h j
  apart := hI.apart

/-- A step of worker `w`, after which it is in state `P`. -/
theorem Inv.set (hK : K.Holds) (hI : Inv K S) {s' : World} {w : WorkerId} {P : Option Process}
    (hs : s'.Sound)
    (hothers : ∀ w' cfg p tr j, w' ≠ w → S.process w' = some (.running cfg p tr) →
      claimedIn tr = some j → Others j S.world s')
    (hstage : ∀ cfg p tr, P = some (.running cfg p tr) → Stage K s' cfg p tr)
    (hapart : ∀ cfg p tr j, P = some (.running cfg p tr) → claimedIn tr = some j →
      ∀ w' cfg' p' tr', w' ≠ w → S.process w' = some (.running cfg' p' tr') →
        claimedIn tr' ≠ some j) : Inv K (S.set s' w P) where
  sound := hs
  stage w' cfg p tr hw' := by
    by_cases hww : w' = w
    · subst hww
      exact hstage cfg p tr (by simpa using hw')
    · rw [set_process_ne _ _ hww] at hw'
      exact (hI.stage w' cfg p tr hw').others hK fun j => hothers w' cfg p tr j hww hw'
  apart w₁ w₂ cfg₁ cfg₂ p₁ p₂ tr₁ tr₂ j h₁ h₂ hj₁ hj₂ := by
    by_cases hw₁ : w₁ = w
    · by_cases hw₂ : w₂ = w
      · rw [hw₁, hw₂]
      · subst hw₁
        rw [set_process_ne _ _ hw₂] at h₂
        exact absurd hj₂ (hapart _ _ _ j (by simpa using h₁) hj₁ _ _ _ _ hw₂ h₂)
    · rw [set_process_ne _ _ hw₁] at h₁
      by_cases hw₂ : w₂ = w
      · subst hw₂
        exact absurd hj₁ (hapart _ _ _ j (by simpa using h₂) hj₂ _ _ _ _ hw₁ h₁)
      · rw [set_process_ne _ _ hw₂] at h₂
        exact hI.apart _ _ _ _ _ _ _ _ j h₁ h₂ hj₁ hj₂

/-- A step of a worker that is in no round after it. -/
theorem Inv.setIdle (hK : K.Holds) (hI : Inv K S) {s' : World} {w : WorkerId} {P : Option Process}
    (hs : s'.Sound) (hothers : ∀ j, Others j S.world s')
    (hP : ∀ cfg p tr, P ≠ some (.running cfg p tr)) : Inv K (S.set s' w P) :=
  hI.set hK hs (fun _ _ _ _ j _ _ _ => hothers j) (fun _ _ _ h => absurd h (hP _ _ _))
    fun _ _ _ _ h => absurd h (hP _ _ _)

/-- **The rule of the step.**  The invariant is kept, the step is a turn, and a
step of a worker is within its contract. -/
theorem Inv.step (hK : K.Holds) (hI : Inv K S) (h : Step S o S') :
    Inv K S' ∧ Turn S.world o S'.world ∧
      ∀ w e, o = .work w e → ∃ cfg p tr, S.process w = some (.running cfg p tr) ∧
        Progressed K S.world tr e S'.world := by
  -- every step but those of a round leaves the rows of claimed jobs to `Others`
  have hidle : ∀ {s' : World} {w : WorkerId} {P : Option Process}, SameTables S.world s' →
      (∀ cfg p tr, P ≠ some (.running cfg p tr)) → o.IsIdle →
      (∀ w e, o = .work w e → s' = S.world) →
      Inv K (S.set s' w P) ∧ Turn S.world o s' := by
    intro s' w P hsame hP ho hwork
    have ht : Turn S.world o s' := .idle ho hsame hwork
    exact ⟨hI.setIdle hK (ht.sound hI.sound) (fun _ => hsame.others) hP, ht⟩
  cases h with
  | request r =>
    have ht : Turn S.world (.request r (handle S.world r).1) _ := .requested r
    exact ⟨hI.withWorld hK (ht.sound hI.sound) fun _ => (handle_requested _ r).others, ht,
      by simp⟩
  | clock seconds =>
    have hsame : SameTables S.world { S.world with now := S.world.now + seconds } :=
      ⟨rfl, rfl, rfl, rfl, rfl⟩
    have ht : Turn S.world .clock _ := .idle trivial hsame (by simp)
    exact ⟨hI.withWorld hK (ht.sound hI.sound) fun _ => hsame.others, ht, by simp⟩
  | boot cfg s' hfree hlease =>
    obtain ⟨hinv, ht⟩ := hidle (w := cfg.workerId) (recordWorkerStart_sameTables hlease)
      (P := some (.starting cfg)) (by simp) trivial (by simp)
    exact ⟨hinv, ht, by simp⟩
  | recover w cfg hw =>
    have ht : Turn S.world (.recover w) (recoverInterruptedJobs S.world) := .recovered w
    exact ⟨hI.setIdle hK (ht.sound hI.sound) (fun _ => others_recoverInterruptedJobs) (by simp),
      ht, by simp⟩
  | call w cfg hw =>
    refine ⟨hI.set hK hI.sound (fun _ _ _ _ j _ _ _ => .refl j _) ?_ ?_, .idle trivial (.refl _) (by simp),
      by simp⟩
    · rintro _ _ _ h
      obtain ⟨rfl, rfl, rfl⟩ : cfg = _ ∧ processNext cfg () = _ ∧ [] = _ := by simpa using h
      exact .called
    · rintro _ _ _ j h hj
      obtain ⟨-, -, rfl⟩ : cfg = _ ∧ processNext cfg () = _ ∧ [] = _ := by simpa using h
      simp [claimedIn] at hj
  | work w cfg p p' tr e s' hw hstep =>
    obtain ⟨hst, ht, hprog, hothers⟩ := (hI.stage w cfg p tr hw).step hK hI.sound w hstep
    refine ⟨hI.set hK (ht.sound hI.sound) ?_ ?_ ?_, ht, ?_⟩
    · intro w' cfg' p₁ tr' j hww hw' hj
      exact hothers j fun hj' => hww (hI.apart _ _ _ _ _ _ _ _ j hw' hw hj hj')
    · rintro _ _ _ h
      obtain ⟨rfl, rfl, rfl⟩ : cfg = _ ∧ p' = _ ∧ tr ++ [e] = _ := by simpa using h
      exact hst
    · rintro _ _ _ j h hj w' cfg' p₁ tr' hww hw' hj'
      obtain ⟨rfl, rfl, rfl⟩ : cfg = _ ∧ p' = _ ∧ tr ++ [e] = _ := by simpa using h
      cases hprog with
      | before _ h' => simp [h'] at hj
      | claims i _ h' _ hi =>
        obtain rfl : i = j := by simpa [h'] using hj
        exact hi (hI.claimed hw' hj')
      | within i _ h' =>
        obtain rfl : i = j := by simpa [claimedIn_append h' [e]] using hj
        exact hww (hI.apart _ _ _ _ _ _ _ _ i hw' hw hj' h')
    · rintro _ _ h
      obtain ⟨rfl, rfl⟩ : w = _ ∧ e = _ := by simpa using h
      exact ⟨cfg, p, tr, hw, hprog⟩
  | ended w cfg b tr hw =>
    obtain ⟨hinv, ht⟩ := hidle (w := w) (.refl _) (P := some (.idle cfg)) (by simp) trivial (by simp)
    exact ⟨hinv, ht, by simp⟩
  | heartbeat w hw =>
    have hsame := recordWorkerHeartbeat_sameTables w S.world
    have ht : Turn S.world (.heartbeat w) _ := .idle trivial hsame (by simp)
    exact ⟨hI.withWorld hK (ht.sound hI.sound) fun _ => hsame.others, ht, by simp⟩
  | crash w =>
    obtain ⟨hinv, ht⟩ := hidle (w := w) (.refl _) (P := none) (by simp) trivial (by simp)
    exact ⟨hinv, ht, by simp⟩
  | leave w =>
    have hsame : SameTables S.world (releaseWorkerLease w S.world) := ⟨rfl, rfl, rfl, rfl, rfl⟩
    obtain ⟨hinv, ht⟩ := hidle (w := w) hsame (P := none) (by simp) trivial (by simp)
    exact ⟨hinv, ht, by simp⟩

end Invariant

end System

end PalworldManager
