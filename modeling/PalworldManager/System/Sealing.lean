/-
# An accepted cancellation keeps the server up

The countdown of an assisted shutdown (`shutdown/jobs.py`) and of an update
(`updates/jobs.py`) ends in `mark_irreversible`, one conditional update that either finds
a cancellation or turns cancellation off.  The server is stopped, and the update applied
(`app_update` of SteamCMD), only once it has done the latter, and from then on no checkpoint
turns cancellation on again.  `Seals` says so of the steps of a round.  An update asks SteamCMD
for the builds before that, which does not touch the server.

The row of a job then ties the two processes together: it is sealed once the mark has
continued (`Run.sealed`), and it keeps a cancellation that was accepted
(`Run.cancelRequested`).  So no job whose cancellation was accepted touches the server
(`Run.cancelled_spares_server`), and after the mark every cancellation is refused
(`Run.refused_after_mark`), however the two processes interleave.
-/

import PalworldManager.System.Cancellation
import PalworldManager.System.Rounds

namespace PalworldManager

open Effects Text
open Effects.Exec hiding bind ask

/-- The kinds of jobs with a countdown that can be cancelled. -/
def JobKind.countsDown : JobKind → Bool
  | .shutdown .assisted | .update => true
  | _ => false

/-- The mark of job `j` found no cancellation. -/
def Marked (j : JobId) (tr : List Ev) : Prop := .tx (.irreversible j .continue) ∈ tr

/-- The row of job `j` accepts no cancellation, and none was requested. -/
def Sealed (j : JobId) (s : World) : Prop :=
  ∀ job, s.jobs.get j = some job → job.isCancellable = false ∧ job.cancelRequested = false

/-- What a round of a job with a countdown guarantees in each of its steps. -/
structure Seals (j : JobId) (_ : World) (tr : List Ev) (e : Ev) (s' : World) : Prop where
  stops : stepClass e = .server → Marked j tr
  marks : e = .tx (.irreversible j .continue) → Sealed j s'
  keeps : Marked j tr → stepClass e ≠ .opening

/-- The classes of steps that may stand on either side of the mark. -/
def Neutral (c : StepClass) : Prop := c ≠ .server ∧ c ≠ .mark ∧ c ≠ .opening

/-- The classes of steps before the mark. -/
def BeforeMark (c : StepClass) : Prop := c ≠ .server ∧ c ≠ .mark

/-- The classes of steps after the mark. -/
def AfterMark (c : StepClass) : Prop := c ≠ .mark ∧ c ≠ .opening

instance Neutral.decidable : DecidablePred Neutral := fun _ => inferInstanceAs (Decidable (_ ∧ _))

instance BeforeMark.decidable : DecidablePred BeforeMark :=
  fun _ => inferInstanceAs (Decidable (_ ∧ _))

instance AfterMark.decidable : DecidablePred AfterMark :=
  fun _ => inferInstanceAs (Decidable (_ ∧ _))

/-- The row of a claimed job, of a kind. -/
def Underway (j : JobId) (kind : JobKind) (s : World) : Prop :=
  ∃ job, s.jobs.get j = some job ∧ job.kind = kind ∧ job.status ≠ .pending

section Rounds

variable {L α β : Type} {V : L → L → Prop} {j : JobId} {kind : JobKind} {s s' : World} {e : Ev}
  {tr : List Ev} {ℓ : L}

/-- A job is marked from its mark on. -/
theorem marked_concat : Marked j (tr ++ [e]) ↔ Marked j tr ∨ e = .tx (.irreversible j .continue) := by
  simp [Marked, eq_comm]

/-- A step of another class is no mark. -/
theorem stepClass_ne_of_mark (h : stepClass e ≠ .mark) : e ≠ .tx (.irreversible j .continue) :=
  fun he => h (he ▸ rfl)

/-- The other parties leave a claimed job claimed, and of its kind. -/
theorem Underway.others (h : Underway j kind s) (ho : Others j s s') : Underway j kind s' := by
  obtain ⟨job, hj, hkind, hnot⟩ := h
  obtain ⟨job', hj', ht⟩ := ho job hj hnot
  exact ⟨job', hj', ht.kind.trans hkind, ht.not_pending hnot⟩

/-- A neutral step meets the guarantee on either side of the mark. -/
theorem seals_of_neutral (h : Neutral (stepClass e)) : Seals j s tr e s' :=
  ⟨fun he => absurd he h.1, fun he => absurd he (stepClass_ne_of_mark h.2.1), fun _ => h.2.2⟩

/-- A step before the mark. -/
theorem seals_before (hm : ¬Marked j tr) (h : BeforeMark (stepClass e)) : Seals j s tr e s' :=
  ⟨fun he => absurd he h.1, fun he => absurd he (stepClass_ne_of_mark h.2), fun h => absurd h hm⟩

/-- A step after the mark. -/
theorem seals_after (hm : Marked j tr) (h : AfterMark (stepClass e)) : Seals j s tr e s' :=
  ⟨fun _ => hm, fun he => absurd he (stepClass_ne_of_mark h.1), fun _ => h.2⟩

/-- A statement on either side of the mark. -/
theorem wp_neutral {x : Py L α} (hx : Keeps (Acts Neutral j) V x) :
    wp (Others j) (Seals j) x (fun _ _ _ _ => True) (fun _ _ _ _ => True) ℓ s tr :=
  wp_mono (wp_keeps (I := fun _ _ => True) hx (fun _ _ _ _ h => h)
    (fun _ _ _ _ _ he => ⟨trivial, seals_of_neutral he.2⟩) trivial) (fun _ _ _ _ _ => trivial)
    fun _ _ _ _ _ => trivial

/-- A statement after the mark. -/
theorem wp_after {x : Py L α} (hx : Keeps (Acts AfterMark j) V x) (h : Marked j tr) :
    wp (Others j) (Seals j) x (fun _ _ _ tr => Marked j tr) (fun _ _ _ _ => True) ℓ s tr :=
  wp_mono (wp_keeps (I := fun _ tr => Marked j tr) hx (fun _ _ _ _ h => h)
    (fun _ _ _ _ h he => ⟨marked_concat.mpr (.inl h), seals_after h he.2⟩) h)
    (fun _ _ _ _ h => h.2) fun _ _ _ _ _ => trivial

/-- A statement before the mark. -/
theorem wp_before {x : Py L α} (hx : Keeps (Acts BeforeMark j) V x) (h : ¬Marked j tr) :
    wp (Others j) (Seals j) x (fun _ _ _ tr => ¬Marked j tr) (fun _ _ _ _ => True) ℓ s tr := by
  refine wp_mono (wp_keeps (I := fun _ tr => ¬Marked j tr) hx (fun _ _ _ _ h => h)
    (fun _ tr e _ h he => ⟨fun hm => ?_, seals_before h he.2⟩) h) (fun _ _ _ _ h => h.2)
    fun _ _ _ _ _ => trivial
  rcases marked_concat.mp hm with hm | rfl
  · exact h hm
  · exact he.2.2 rfl

/-- Such a statement, and what follows it. -/
theorem wp_before_bind {x : Py L α} {f : α → Py L β} {Q : β → L → World → List Ev → Prop}
    (hx : Keeps (Acts BeforeMark j) V x) (h : ¬Marked j tr)
    (hf : ∀ a ℓ s tr, ¬Marked j tr →
      wp (Others j) (Seals j) (f a) Q (fun _ _ _ _ => True) ℓ s tr) :
    wp (Others j) (Seals j) (x >>= f) Q (fun _ _ _ _ => True) ℓ s tr := by
  rw [wp_bind]
  exact wp_mono (wp_before hx h) (fun a ℓ s tr h => hf a ℓ s tr h) fun _ _ _ _ h => h

/-- **The mark**: where it continues, the row is sealed. -/
theorem wp_mark {step : String} {n : ℕ} (h : ¬Marked j tr) :
    wp (Others j) (Seals j) (markIrreversible j step n : Py L _)
      (fun d _ _ tr => d ≠ .cancel → Marked j tr) (fun _ _ _ _ => True) ℓ s tr := by
  rw [markIrreversible, wp_session]
  refine fun s₁ _ => ⟨fun d s' hs => ?_, fun e _ =>
    ⟨seals_of_neutral (by decide), trivial⟩⟩
  obtain ⟨job, hj, ⟨rfl, -, rfl⟩ | ⟨rfl, hnone, rfl⟩⟩ := markIrreversible_step hs
  · exact ⟨⟨(fun he => by cases he), (fun he => by cases he), fun hm => absurd hm h⟩,
      fun hd => absurd rfl hd⟩
  · refine ⟨⟨(fun he => by cases he), fun _ job' hj' => ?_, fun hm => absurd hm h⟩,
      fun _ => by simp [Marked]⟩
    obtain rfl : job.seal step n = job' := by simpa [hj] using hj'
    exact ⟨rfl, hnone⟩

/-- **The shutdown**: it succeeds only past the mark. -/
theorem wp_assistedShutdown_seals [IsPreorder L V] {control : CountdownControl L} (minutes timeout : ℤ)
    (hupdate : ∀ r t, (control.update r t).Keeps (Acts BeforeMark j) V)
    (hmark : ∀ ℓ s tr, ¬Marked j tr → wp (Others j) (Seals j) control.markIrreversible
      (fun d _ _ tr => d ≠ .cancel → Marked j tr) (fun _ _ _ _ => True) ℓ s tr)
    (h : ¬Marked j tr) :
    wp (Others j) (Seals j) (assistedShutdown j minutes timeout control)
      (fun result _ _ tr => result.outcome = .succeeded → Marked j tr) (fun _ _ _ _ => True)
      ℓ s tr := by
  have hstop {players : ℕ} {ℓ : L} {s : World} {tr : List Ev} (hm : Marked j tr) :
      wp (Others j) (Seals j) (announceAndStop j players timeout : Py L _)
        (fun result _ _ tr => result.outcome = .succeeded → Marked j tr) (fun _ _ _ _ => True)
        ℓ s tr :=
    wp_mono (wp_after (V := V) (keeps_announceAndStop (by decide) (by decide) _ _) hm)
      (fun _ _ _ _ h _ => h) fun _ _ _ _ _ => trivial
  have hgo {players : ℕ} {ℓ : L} {s : World} {tr : List Ev} (h : ¬Marked j tr) :
      wp (Others j) (Seals j) (endCountdown j players timeout control .continue)
        (fun result _ _ tr => result.outcome = .succeeded → Marked j tr) (fun _ _ _ _ => True)
        ℓ s tr := by
    refine (wp_bind ..).mpr (wp_mono (hmark ℓ s tr h) (fun d ℓ s tr hd => ?_) fun _ _ _ _ h => h)
    cases d with
    | cancel => exact (wp_pure _).mpr fun h => by cases h
    | «continue» => exact hstop (hd (by simp))
    | executeNow => exact hstop (hd (by simp))
  rw [assistedShutdown, wp_bind, wp_raiseIf]
  refine ⟨fun _ => trivial, fun _ => ?_⟩
  refine wp_before_bind (V := V) (keeps_announceCountdown (by decide) _) h
    fun answer ℓ s tr h => ?_
  cases answer with
  | none => exact (wp_pure _).mpr fun h => by cases h
  | some players =>
    refine wp_before_bind (keeps_countdown _ hupdate _) h fun directive ℓ s tr h => ?_
    cases directive with
    | cancel =>
      rw [endCountdown, wp_ite]
      refine ⟨fun _ => ?_, fun _ => (wp_pure _).mpr fun h => by cases h⟩
      rw [wp_bind]
      exact wp_mono (wp_neutral (V := V) (keeps_announceSuppressed (by decide) _))
        (fun _ _ _ _ _ => (wp_pure _).mpr fun h => by cases h) fun _ _ _ _ h => h
    | «continue» => exact hgo h
    | executeNow => exact hgo h

section Update

variable {request : UpdateRequest} {ℓ : UpdateLocals}

/-- **The shutdown of an update**: it returns only past the mark. -/
theorem wp_shutDownForUpdate (h : ¬Marked j tr) :
    wp (Others j) (Seals j) (shutDownForUpdate j request) (fun _ _ _ tr => Marked j tr)
      (fun _ _ _ _ => True) ℓ s tr := by
  rw [shutDownForUpdate]
  refine wp_before_bind (V := anyLocals)
    (keeps_updateCheckpoint (by decide) (c := true) (by decide) _ _) h fun _ ℓ s tr h => ?_
  rw [wp_bind, wp_tryCatch]
  refine wp_mono (wp_assistedShutdown_seals (V := anyLocals) _ _
    (fun _ _ => keeps_countdownUpdate (by decide) (by decide) _ _ _ _ _) (fun ℓ s tr h => ?_) h)
    (fun result ℓ s tr hm => ?_) fun _ _ _ _ _ => ?_
  · -- the control notes where the mark continued
    refine (wp_bind ..).mpr (wp_mono (wp_mark h) (fun d ℓ s tr hd => ?_) fun _ _ _ _ h => h)
    rw [wp_ite]
    exact ⟨fun _ => (wp_bind ..).mpr ((wp_assign _).mpr ((wp_pure _).mpr hd)),
      fun _ => (wp_pure _).mpr hd⟩
  · rw [wp_bind, wp_assign, wp_bind, wp_raiseIf]
    refine ⟨fun _ => trivial, fun _ => ?_⟩
    rw [wp_raiseIf]
    exact ⟨fun _ => trivial, fun hsucceeded => hm (not_not.mp hsucceeded)⟩
  · rw [wp_bind, wp_assign, wp_raise]
    trivial

/-- The body of an update, which marks its job before it touches the server. -/
theorem wp_runUpdate_seals [Unicode] (h : ¬Marked j tr) :
    wp (Others j) (Seals j) (runUpdate j request) (fun _ _ _ _ => True) (fun _ _ _ _ => True)
      ℓ s tr := by
  have hcheckpoint (step : String) (n : ℕ) :
      Keeps (Acts BeforeMark j) anyLocals (updateCheckpoint j step n true : Py UpdateLocals Unit) :=
    keeps_updateCheckpoint (by decide) (c := true) (by decide) step n
  rw [runUpdate]
  refine wp_before_bind (hcheckpoint _ _) h fun _ ℓ s tr h => ?_
  refine wp_before_bind (V := anyLocals) (keeps_ask _ (by decide)) h fun _ ℓ s tr h => ?_
  refine wp_before_bind (V := anyLocals) (keeps_ofReply _) h fun _ ℓ s tr h => ?_
  refine wp_before_bind (V := anyLocals) (keeps_raiseIf _ _) h fun _ ℓ s tr h => ?_
  refine wp_before_bind (hcheckpoint _ _) h fun _ ℓ s tr h => ?_
  refine wp_before_bind (V := anyLocals) (keeps_ask _ (by decide)) h fun _ ℓ s tr h => ?_
  refine wp_before_bind (V := anyLocals) (keeps_ofReply _) h fun before ℓ s tr h => ?_
  refine wp_before_bind (V := anyLocals) (keeps_mergeResult (by decide) (by decide)
    (by simp [SteamBuildInfo.result])) h fun _ ℓ s tr h => ?_
  rw [wp_ite]
  refine ⟨fun _ => ?_, fun _ => wp_neutral (V := anyLocals)
    (keeps_finishCheck (by decide) (by decide) _)⟩
  refine wp_before_bind (keeps_makePreUpdateBackup fun c _ hserver hmark _ => ⟨hserver, hmark⟩) h
    fun _ ℓ s tr h => ?_
  rw [wp_bind]
  refine wp_mono (wp_shutDownForUpdate h) (fun _ ℓ s tr hm => ?_) fun _ _ _ _ h => h
  rw [wp_bind]
  refine wp_mono (wp_after (keeps_applyUpdate (fun c _ hopening hmark _ => ⟨hmark, hopening⟩) request) hm)
    (fun after ℓ s tr _ => ?_) fun _ _ _ _ h => h
  exact wp_neutral (keeps_completeUpdate (by decide) (by decide) _ _ _)

/-- The executor of an update, with its handlers. -/
theorem wp_executeUpdate_seals [Unicode] {ℓ : L} (h : ¬Marked j tr) :
    wp (Others j) (Seals j) (executeUpdate j : Py L Unit) (fun _ _ _ _ => True)
      (fun _ _ _ _ => True) ℓ s tr := by
  have hcleanup {E : Exn → UpdateLocals → World → List Ev → Prop} {ℓ : UpdateLocals} {s : World}
      {tr : List Ev} (hE : ∀ e ℓ s tr, E e ℓ s tr) :
      wp (Others j) (Seals j) (cleanUpUpdate j) (fun _ _ _ _ => True) E ℓ s tr :=
    wp_mono (wp_neutral (keeps_cleanUpUpdate (by decide))) (fun _ _ _ _ _ => trivial)
      fun e ℓ s tr _ => hE e ℓ s tr
  rw [executeUpdate, wp_scope]
  refine wp_before_bind (V := anyLocals) (keeps_tryCatch (keeps_bind (keeps_query (by decide) _)
    fun _ => keeps_pure _) fun _ => keeps_bind (keeps_failUpdate (by decide) (by decide) _ _ _ _)
      fun _ => keeps_pure _) h fun request ℓ s tr h => ?_
  cases request with
  | none => exact (wp_pure _).mpr trivial
  | some request =>
    rw [wp_ensuring, wp_tryCatch]
    refine wp_mono (wp_runUpdate_seals h) (fun _ _ _ _ _ => hcleanup fun _ _ _ _ => trivial)
      fun e ℓ s tr _ => ?_
    exact wp_mono (wp_neutral (keeps_handleUpdate (by decide) (by decide) _ _))
      (fun _ _ _ _ _ => hcleanup fun _ _ _ _ => trivial)
      fun _ _ _ _ _ => hcleanup fun _ _ _ _ => trivial

end Update

/-- **The executor** of a job with a countdown. -/
theorem wp_executor_seals [Unicode] (cfg : WorkerConfig) (hkind : kind.countsDown = true)
    (hrow : Underway j kind s) (h : ¬Marked j tr) :
    wp (Others j) (Seals j) (executor cfg j kind : Py L Unit) (fun _ _ _ _ => True)
      (fun _ _ _ _ => True) ℓ s tr := by
  cases kind with
  | shutdown kind =>
    cases kind with
    | assisted =>
      rw [executor, executeAssistedShutdownJob]
      refine wp_before_bind (V := anyLocals) (keeps_query (by decide) _) h fun p ℓ s tr h => ?_
      rw [wp_bind]
      refine wp_mono (wp_assistedShutdown_seals (V := anyLocals) _ _
        (fun _ _ => keeps_countdownUpdate (by decide) (by decide) _ _ _ _ _)
        (fun _ _ _ h => wp_mark h) h) (fun result ℓ s tr _ => ?_) fun _ _ _ _ h => h
      exact wp_neutral (V := anyLocals)
        (keeps_completeShutdownJob (by decide) (by decide) _)
    | _ => cases hkind
  | update =>
    rw [executor, executeUpdateJob, wp_bind, wp_query]
    intro s₁ ho
    refine ⟨seals_of_neutral (by decide), fun kind hread => ?_, fun _ _ => trivial⟩
    obtain ⟨job, hj, hupdate, hnot⟩ := hrow
    obtain ⟨job', hj', ht⟩ := ho job hj hnot
    obtain rfl : job'.kind = kind := by simpa [World.getOne, hj', Except.map] using hread
    rw [ht.kind, hupdate]
    exact wp_executeUpdate_seals fun hm => h (by simpa [Marked] using hm)
  | _ => cases hkind

/-- **One execution**, the fallback included. -/
theorem wp_processClaimed_seals [Unicode] (cfg : WorkerConfig) (hkind : kind.countsDown = true)
    (hrow : Underway j kind s) (h : ¬Marked j tr) :
    wp (Others j) (Seals j) (processClaimed cfg j kind : Py L Unit) (fun _ _ _ _ => True)
      (fun _ _ _ _ => True) ℓ s tr := by
  refine wp_processClaimed_frame (I := fun s tr => Underway j kind s ∧ ¬Marked j tr)
    (X := fun _ _ => True) ?_ ?_ ?_ (fun _ _ _ _ h => h) (fun _ _ _ _ h _ => h)
    (fun _ _ _ => trivial) ?_ ?_ ⟨hrow, h⟩
  · rintro s tr e s' (he | he) <;> exact seals_of_neutral (by rw [he]; decide)
  · exact fun s s' tr ho h => ⟨h.1.others ho, h.2⟩
  · intro s tr e s' h he
    obtain ⟨⟨job, hj, hkind, hnot⟩, hm⟩ := h
    refine ⟨⟨job, by rw [(he.1.sameJobs he.2).jobs, hj], hkind, hnot⟩, fun hm' => ?_⟩
    rcases marked_concat.mp hm' with hm' | rfl
    · exact hm hm'
    · have hclass : StepClass.mark = .routine := he.2
      cases hclass
  · exact fun ℓ s tr h => wp_executor_seals cfg hkind h.1 h.2
  · exact fun ℓ s tr _ =>
      wp_neutral (V := anyLocals) (keeps_fallback (by decide) (by decide) kind)

end Rounds

/-- The contract of the jobs with a countdown. -/
def sealing : Contract where
  guarantee j kind s tr e s' := kind.countsDown = true → Seals j s tr e s'
  post _ _ _ _ _ := True

/-- The contract holds from the claim of any job on. -/
theorem sealing_holds [Unicode] : sealing.Holds where
  stable _ _ _ _ _ _ _ _ := trivial
  safe cfg j kind s log h := claimedRound_safe fun hcounts => by
    obtain ⟨job, hj, hkind, hrunning, -⟩ := h.row
    have hrow : Underway j kind s := ⟨job, hj, hkind, by simp [hrunning]⟩
    have hunmarked : ¬Marked j (claimTrace log j) := by simp [Marked, claimTrace]
    exact wp_processClaimed_seals cfg hcounts hrow hunmarked

/-- A request to cancel job `j`. -/
def WebRequest.cancels (j : JobId) : WebRequest → Bool
  | .backupCancel i | .driveCancel i | .shutdownCancel i _ | .updateCancel i => i == j
  | _ => false

section Requests

variable {s : World} {j : JobId} {r : WebRequest}

/-- **An accepted cancellation** is recorded in the row, which accepted it. -/
theorem handle_cancels (hr : r.cancels j = true) (haccepted : (handle s r).1 = .answered true) :
    (∃ job, s.jobs.get j = some job ∧ job.acceptsCancel = true) ∧
      ∃ job, (handle s r).2.jobs.get j = some job ∧ job.cancelRequested = true := by
  have haccept {accepts : Job → Bool} {onPending : Job → Job}
      (h : CancelsPending onPending)
      (hanswer : (answering (requestCancel accepts onPending j s)).1 = .answered true) :
      (∃ job, s.jobs.get j = some job ∧ job.acceptsCancel = true) ∧
        ∃ job, (answering (requestCancel accepts onPending j s)).2.jobs.get j = some job ∧
          job.cancelRequested = true := by
    have htrue : requestCancel accepts onPending j s =
        (true, (requestCancel accepts onPending j s).2) :=
      Prod.ext (by simpa [answering] using hanswer) rfl
    obtain ⟨⟨job, hj, -, haccepts⟩, hrecorded⟩ := requestCancel_accepted h htrue
    exact ⟨⟨job, hj, haccepts⟩, hrecorded⟩
  cases r with
  | backupCancel i | driveCancel i =>
    obtain rfl : i = j := by simpa [WebRequest.cancels] using hr
    exact haccept (.inl rfl) haccepted
  | shutdownCancel i owner =>
    obtain rfl : i = j := by simpa [WebRequest.cancels] using hr
    refine haccept (.inr ⟨_, fun job key hkey => ?_, rfl⟩) haccepted
    exact Dict.value_append (by simpa using hkey)
  | updateCancel i =>
    obtain rfl : i = j := by simpa [WebRequest.cancels] using hr
    exact haccept (.inr ⟨_, fun _ _ _ => rfl, rfl⟩) haccepted
  | _ => cases hr

/-- A request to cancel is answered by whether it was accepted. -/
theorem handle_cancels_answer (s : World) (hr : r.cancels j = true) :
    ∃ accepted, (handle s r).1 = .answered accepted := by
  cases r with
  | backupCancel | driveCancel | shutdownCancel | updateCancel => exact ⟨_, rfl⟩
  | _ => cases hr

end Requests

namespace System

/-- In a history, the web process accepted a cancellation of job `j`. -/
def CancelAccepted (h : History) (j : JobId) : Prop :=
  ∃ r s, (.request r (.answered true), s) ∈ h ∧ r.cancels j = true

section Runs

variable {allowed : Policy} {s₀ : World} {h pre mid post : History} {S S' : System}
  {o : Occurrence} {j : JobId} {w : WorkerId} {job : Job}

/-- A cancellation is accepted before, or by the last occurrence. -/
theorem cancelAccepted_concat {s : World} : CancelAccepted (h ++ [(o, s)]) j ↔
    CancelAccepted h j ∨ ∃ r, o = .request r (.answered true) ∧ r.cancels j = true := by
  constructor
  · rintro ⟨r, s', hmem, hr⟩
    rcases List.mem_append.mp hmem with hmem | hmem
    · exact .inl ⟨r, s', hmem, hr⟩
    · obtain ⟨rfl, -⟩ := Prod.mk.inj (List.mem_singleton.mp hmem)
      exact .inr ⟨r, rfl, hr⟩
  · rintro (⟨r, s', hmem, hr⟩ | ⟨r, rfl, hr⟩)
    · exact ⟨r, s', List.mem_append_left _ hmem, hr⟩
    · exact ⟨r, s, List.mem_append_right _ (List.mem_singleton_self _), hr⟩

/-- The request of a cancellation is kept, whatever happens to the row. -/
theorem RowStepped.cancelRequested {K : Contract} {job' : Job} (h : RowStepped K S o S' j job job')
    (hj : S.world.jobs.get j = some job) (hj' : S'.world.jobs.get j = some job')
    (hr : job.cancelRequested = true) : job'.cancelRequested = true := by
  cases h with
  | kept => exact hr
  | requested hreq =>
    cases hreq with
    | same => exact hr
    | stopNow => exact hr
    | cancel => rfl
    | cancelPending => rfl
  | interrupted => exact hr
  | claimed => exact hr
  | worked w tr e _ _ hworked =>
    obtain ⟨job₁, hj₁, hkept⟩ := hworked.rowKept hj
    obtain rfl : job' = job₁ := by simpa [hj'] using hj₁
    exact hkept.cancelRequested.trans hr

variable [Unicode]

/-- **A cancellation that was accepted stays requested.** -/
theorem Run.cancelRequested (hrun : Run allowed s₀ h S) (haccepted : CancelAccepted h j) :
    ∃ job, S.world.jobs.get j = some job ∧ job.cancelRequested = true := by
  refine (hrun.induct (M := fun h S => ∀ j, CancelAccepted h j →
    ∃ job, S.world.jobs.get j = some job ∧ job.cancelRequested = true) Contract.none_holds ?_ ?_).2
    j haccepted
  · rintro - j ⟨r, s, hmem, -⟩
    cases hmem
  · intro h S o S' _ hs _ ih j haccepted
    rcases cancelAccepted_concat.mp haccepted with haccepted | ⟨r, rfl, hr⟩
    · obtain ⟨job, hj, hrequested⟩ := ih j haccepted
      obtain ⟨job', hj', hrow⟩ := hs.row hj
      exact ⟨job', hj', hrow.cancelRequested hj hj' hrequested⟩
    · generalize ho : Occurrence.request r (.answered true) = o at hs
      cases hs.step with
      | request r' =>
        obtain ⟨rfl, hanswer⟩ : r = r' ∧ _ := by simpa using ho
        exact (handle_cancels hr hanswer.symm).2
      | _ => cases ho

/-- **The row stays sealed** once the mark has continued. -/
theorem Run.sealed (hrun : Run allowed s₀ h S) (hj : S.world.jobs.get j = some job)
    (hkind : job.kind.countsDown = true) (hmarked : Marked j (jobEvents j h)) :
    job.isCancellable = false ∧ job.cancelRequested = false := by
  refine (hrun.induct (M := fun h S => ∀ j job, S.world.jobs.get j = some job →
    job.kind.countsDown = true → Marked j (jobEvents j h) →
      job.isCancellable = false ∧ job.cancelRequested = false) sealing_holds ?_ ?_).2 j job hj hkind
      hmarked
  · intro _ j job _ _ hmarked
    cases hmarked
  intro h S o S' hrun hs _ ih j job' hj' hkind hmarked
  -- what is known of a step for the job
  have hwork {w : WorkerId} {e : Ev} (ho : o = .work w e) (he : jobOf e = some j) :
      Seals j S.world (jobEvents j h) e S'.world := by
    obtain ⟨cfg, p, tr, job, hw, hi, hj, -, hG, -⟩ := hs.within ho he
    obtain ⟨job'', hj'', hmoved⟩ := hs.turn.moved hj
    obtain rfl : job' = job'' := by simpa [hj'] using hj''
    obtain ⟨hstops, hmarks, hkeeps⟩ := hG (hmoved.kind ▸ hkind)
    have hevents : Marked j (jobEvents j h) ↔ Marked j tr := by
      rw [hrun.jobEvents_eq hw hi, Marked, mem_eventsOf]
      exact and_iff_left rfl
    exact ⟨fun hserver => hevents.mpr (hstops hserver), hmarks, fun hm => hkeeps (hevents.mp hm)⟩
  by_cases hold : Marked j (jobEvents j h)
  · have hclaimed : S.world.Claimed j := by
      by_contra hnot
      rw [hrun.jobEvents_of_unclaimed hnot] at hold
      cases hold
    obtain ⟨job, hj, hnot⟩ := hclaimed
    obtain ⟨job'', hj'', hrow⟩ := hs.row hj
    obtain rfl : job' = job'' := by simpa [hj'] using hj''
    obtain ⟨job₁, hj₁, hmoved⟩ := hs.turn.moved hj
    obtain rfl : job' = job₁ := by simpa [hj'] using hj₁
    obtain ⟨hcancellable, hrequested⟩ := ih j job hj (hmoved.kind ▸ hkind) hold
    cases hrow with
    | kept => exact ⟨hcancellable, hrequested⟩
    | requested hreq =>
      cases hreq with
      | same => exact ⟨hcancellable, hrequested⟩
      | stopNow => exact ⟨hcancellable, hrequested⟩
      | cancel haccepts => simp [Job.acceptsCancel, hcancellable] at haccepts
      | cancelPending _ haccepts => simp [Job.acceptsCancel, hcancellable] at haccepts
    | interrupted => exact ⟨rfl, hrequested⟩
    | claimed _ _ hpending => exact absurd hpending hnot
    | worked w tr e ho _ hworked =>
      obtain ⟨job₁, hj₁, hkept⟩ := hworked.rowKept hj
      obtain rfl : job' = job₁ := by simpa [hj'] using hj₁
      refine ⟨Bool.eq_false_iff.mpr fun hc => ?_, hkept.cancelRequested.trans hrequested⟩
      rcases hkept.cancellable hc with hc | hopening
      · simp [hcancellable] at hc
      · have he : jobOf e = some j := hworked.jobOf_eq (by simp [hopening]) (by simp [hopening])
        exact (hwork ho he).keeps hold hopening
  · rw [jobEvents_concat, Marked, List.mem_append] at hmarked
    have hmem := (mem_eventsOf.mp (hmarked.resolve_left hold)).1
    cases o with
    | work w e =>
      obtain rfl : .tx (.irreversible j .continue) = e := by
        simpa [Occurrence.event] using hmem
      exact (hwork rfl rfl).marks rfl job' hj'
    | _ => cases hmem

/-- The server is touched only past the mark. -/
theorem Run.marked_of_server (hrun : Run allowed s₀ h S) (hj : S.world.jobs.get j = some job)
    (hkind : job.kind.countsDown = true) {e : Ev} (he : e ∈ jobEvents j h)
    (hserver : stepClass e = .server) : Marked j (jobEvents j h) := by
  obtain ⟨⟨w, s, hmem⟩, hjob⟩ := mem_jobEvents.mp he
  obtain ⟨pre, post, rfl⟩ := List.append_of_mem hmem
  obtain ⟨s₁, tr, hevents, hG⟩ := hrun.within_of_split sealing_holds hjob hj
  have hmarked := (hG hkind).stops hserver
  rw [jobEvents_append, hevents]
  exact List.mem_append_left _ (mem_eventsOf.mpr ⟨hmarked, rfl⟩)

/-- **An accepted cancellation keeps the server up**: no job with a countdown whose
cancellation was accepted stops the server or applies an update. -/
theorem Run.cancelled_spares_server (hrun : Run allowed s₀ h S)
    (hj : S.world.jobs.get j = some job) (hkind : job.kind.countsDown = true)
    (haccepted : CancelAccepted h j) :
    (∀ timeout r, ¬Asked h j (.lifecycle .stop timeout) r) ∧ ∀ r, ¬Asked h j .applyUpdate r := by
  have hnone {c : Call} {r : Reply c} (hc : c.cls = .server) : ¬Asked h j c r := by
    rintro ⟨w, s, hmem⟩
    have hlog : c ≠ .createLog := fun hlog => by simp [hlog, Call.cls] at hc
    have hmarked := hrun.marked_of_server hj hkind
      (mem_jobEvents.mpr ⟨⟨w, s, hmem⟩, by simp [jobOf, hlog]⟩) hc
    obtain ⟨job', hj', hrequested⟩ := hrun.cancelRequested haccepted
    obtain rfl : job = job' := by simpa [hj] using hj'
    simp [(hrun.sealed hj hkind hmarked).2] at hrequested
  exact ⟨fun _ _ => hnone rfl, fun _ => hnone rfl⟩

/-- **After the mark every cancellation is refused.** -/
theorem Run.refused_after_mark {r : WebRequest} {answer : WebResponse} {s s' : World}
    (hrun : Run allowed s₀ (pre ++ (.request r answer, s) :: post) S)
    (hmarked : (.work w (.tx (.irreversible j .continue)), s') ∈ pre)
    (hj : S.world.jobs.get j = some job) (hkind : job.kind.countsDown = true)
    (hr : r.cancels j = true) : answer = .answered false := by
  have hrequest : (.request r answer, s) ∈ pre ++ (.request r answer, s) :: post := by simp
  obtain ⟨S₁, S₂, hrun₁, hs, -, rfl⟩ := hrun.stepped_of_split sealing_holds
  obtain ⟨accepted, hanswer⟩ := handle_cancels_answer S₁.world hr
  obtain rfl : answer = .answered accepted := by
    generalize ho : Occurrence.request r answer = o at hs
    cases hs.step with
    | request r' =>
      obtain ⟨rfl, rfl⟩ : r = r' ∧ answer = (handle S₁.world r').1 := by simpa using ho
      exact hanswer
    | _ => cases ho
  cases accepted with
  | false => rfl
  | true =>
    obtain ⟨⟨job₁, hj₁, haccepts⟩, -⟩ := handle_cancels hr hanswer
    obtain ⟨job₂, hj₂, hmoved⟩ := hs.turn.moved hj₁
    obtain ⟨job', hj', hkind'⟩ := hrun.kinds hrequest hj₂
    obtain rfl : job = job' := by simpa [hj] using hj'
    have hcounts : job₁.kind.countsDown = true := by rw [← hmoved.kind, ← hkind', hkind]
    have hsealed := hrun₁.sealed hj₁ hcounts (mem_jobEvents.mpr ⟨⟨w, s', hmarked⟩, rfl⟩)
    simp [Job.acceptsCancel, hsealed.1] at haccepts

end Runs

/-- The occurrence of an accepted cancellation of job `j`. -/
def acceptsCancelOf (j : JobId) : Occurrence × World → Bool
  | (.request r (.answered true), _) => r.cancels j
  | _ => false

/-- The occurrence of a mark of job `j` that continues. -/
def marksOf (j : JobId) : Occurrence × World → Bool
  | (.work _ (.tx l), _) => l == .irreversible j .continue
  | _ => false

section Readings

variable {h : History} {j : JobId}

/-- An accepted cancellation that is found in a history. -/
theorem cancelAccepted_of_any (hany : h.any (acceptsCancelOf j) = true) : CancelAccepted h j := by
  obtain ⟨⟨o, s⟩, hmem, haccepts⟩ := List.any_eq_true.mp hany
  unfold acceptsCancelOf at haccepts
  split at haccepts
  · rename_i r s' heq
    obtain ⟨rfl, rfl⟩ := Prod.mk.inj heq
    exact ⟨r, s, hmem, haccepts⟩
  · cases haccepts

/-- A mark that is found in a history. -/
theorem marked_of_any (hany : h.any (marksOf j) = true) :
    ∃ w s, (.work w (.tx (.irreversible j .continue)), s) ∈ h := by
  obtain ⟨⟨o, s⟩, hmem, hmarks⟩ := List.any_eq_true.mp hany
  unfold marksOf at hmarks
  split at hmarks
  · rename_i w l s' heq
    obtain ⟨rfl, rfl⟩ := Prod.mk.inj heq
    exact ⟨w, s, by rwa [beq_iff_eq.mp hmarks] at hmem⟩
  · cases hmarks

end Readings

/-- Job 1 is an assisted shutdown. -/
def shutsDown (S : System) : Bool := (S.world.jobs.get 1).any fun job => job.kind == .shutdown .assisted

/-- What `shutsDown` tests. -/
theorem shutsDown_iff {S : System} :
    shutsDown S = true ↔ ∃ job, S.world.jobs.get 1 = some job ∧ job.kind = .shutdown .assisted := by
  simp [shutsDown, Option.any_eq_true]

/-- A countdown that is cancelled at its first tick. -/
theorem cancelled_spares_server_tick :
    ∃ h S job, @Run .ascii anyPolicy World.installed h S ∧ S.world.jobs.get 1 = some job ∧
      job.kind.countsDown = true ∧ CancelAccepted h 1 ∧
      (∀ timeout r, ¬Asked h 1 (.lifecycle .stop timeout) r) ∧ ∀ r, ¬Asked h 1 .applyUpdate r := by
  obtain ⟨h, S, hrun, hshuts, hany⟩ := @exists_run .ascii anyPolicy _
    (countedDown ++ [.request (.shutdownCancel 1 none), .work "a:1" playersOnline,
      .work "a:1" playersOnline, .work "a:1" playersOnline])
    (fun h S => shutsDown S = true ∧ h.any (acceptsCancelOf 1) = true) _ (by decide +kernel)
  obtain ⟨job, hj, hkind⟩ := shutsDown_iff.mp hshuts
  have hcounts : job.kind.countsDown = true := by rw [hkind]; rfl
  have haccepted := cancelAccepted_of_any hany
  exact ⟨h, S, job, hrun, hj, hcounts, haccepted,
    @Run.cancelled_spares_server anyPolicy World.installed h S 1 job .ascii hrun hj hcounts haccepted⟩

/-- A countdown that is cut short, and cancelled once its mark has continued. -/
theorem refused_after_mark_stopNow :
    ∃ pre s S job answer, @Run .ascii anyPolicy World.installed
        (pre ++ [(.request (.shutdownCancel 1 none) answer, s)]) S ∧
      (∃ w s', (.work w (.tx (.irreversible 1 .continue)), s') ∈ pre) ∧
      S.world.jobs.get 1 = some job ∧ job.kind.countsDown = true ∧ answer = .answered false := by
  obtain ⟨h, S, hrun, hshuts, hany⟩ := @exists_run .ascii anyPolicy _
    (countedDown ++ [.request (.shutdownNow 1 none), .work "a:1" playersOnline,
      .work "a:1" playersOnline])
    (fun h S => shutsDown S = true ∧ h.any (marksOf 1) = true) _ (by decide +kernel)
  obtain ⟨job, hj, hkind⟩ := shutsDown_iff.mp hshuts
  obtain ⟨w, s', hmarked⟩ := marked_of_any hany
  obtain ⟨job', hj', hrow⟩ := (handle_requested S.world (.shutdownCancel 1 none)).rows 1 job hj
  have hcounts : job'.kind.countsDown = true := by
    rw [(hrow.moved (o := .clock) (j := 1)).kind, hkind]
    rfl
  have hrun' := @Run.step .ascii _ _ _ _ _ _ hrun trivial
    (@Step.request .ascii S (.shutdownCancel 1 none))
  exact ⟨h, _, _, job', _, hrun', ⟨w, s', hmarked⟩, hj', hcounts,
    @Run.refused_after_mark anyPolicy World.installed h [] _ 1 w job' .ascii _ _ _ _ hrun' hmarked hj'
      hcounts rfl⟩

end System

end PalworldManager
