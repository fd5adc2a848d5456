/-
# A cancelled countdown tells the players

The countdown of an assisted shutdown (`shutdown/service.py`) may find a cancellation at
any of its ticks, and again where it marks the job as irreversible.  At a tick it
announces the cancellation to the players before it ends the job; at the mark it ends the
job and announces nothing.  So the players are told in every run in which no mark finds a
cancellation (`Run.cancellation_announced`).

`Told` says so of the trace of one round, and `Tells` is the guarantee of each of its
steps.  The two ends of the round meet in the history: every call of a job is in the trace
of the round that runs it (`Run.asked_mem_trace`).
-/

import PalworldManager.System.Escalation
import PalworldManager.System.Maintenance

namespace PalworldManager

open Effects Text
open Effects.Exec hiding bind ask

/-- The announcement of a countdown. -/
def countdownAnnouncement (minutes : ℕ) : String :=
  "O servidor será desligado em " ++ toString minutes ++ " " ++
    (if minutes = 1 then "minuto" else "minutos") ++ "."

/-- The announcement that a countdown was cancelled. -/
def cancellationAnnouncement : String := "O desligamento do servidor foi cancelado."

/-- Nothing has been announced for job `j`. -/
def Untold (j : JobId) (tr : List Ev) : Prop :=
  ∀ message r, (.ask (j, .announce message) r : Ev) ∉ tr

/-- Players who were told of the countdown have been told that it was cancelled, unless the
mark found the cancellation. -/
def Told (j : JobId) (tr : List Ev) : Prop :=
  ∀ minutes, (.ask (j, .announce (countdownAnnouncement minutes)) (.ok ()) : Ev) ∈ tr →
    (∃ r, (.ask (j, .announce cancellationAnnouncement) r : Ev) ∈ tr) ∨
      .tx (.irreversible j .cancel) ∈ tr

/-- What a round of an assisted shutdown guarantees in each of its steps. -/
structure Tells (j : JobId) (s : World) (tr : List Ev) (e : Ev) (_ : World) : Prop where
  announces : ∀ message r, e = .ask (j, .announce message) r → Unended j (.shutdown .assisted) s
  ends : ∀ found, e = .tx (.finish j found .cancelled) → Told j tr
  marks : e = .tx (.irreversible j .cancel) →
    ∃ job, s.jobs.get j = some job ∧ job.cancelRequested = true

/-- A step that neither announces, nor marks the job, nor ends it. -/
def Hushed (j : JobId) (s : World) (e : Ev) (s' : World) : Prop :=
  Acts (fun c => c ≠ .mark ∧ c ≠ .finish) j s e s' ∧ ∀ message r, e ≠ .ask (j, .announce message) r

/-- The job has not ended, and where `c` nothing has been announced. -/
structure Counting (j : JobId) (c : Prop) (s : World) (tr : List Ev) : Prop where
  unended : Unended j (.shutdown .assisted) s
  untold : c → Untold j tr

section Rounds

variable {L α β : Type} {V : L → L → Prop} [IsPreorder L V] {j : JobId} {c : Prop} {s s' : World}
  {e : Ev} {tr : List Ev} {ℓ : L} {players : ℕ}

/-- Where nothing was announced, no cancellation has to be. -/
theorem Untold.told (h : Untold j tr) : Told j tr := fun _ hmem => absurd hmem (h _ _)

/-- A step that announces nothing. -/
theorem Untold.concat (h : Untold j tr) (he : ∀ message r, e ≠ .ask (j, .announce message) r) :
    Untold j (tr ++ [e]) := by
  intro message r hmem
  rcases List.mem_append.mp hmem with hmem | hmem
  · exact h message r hmem
  · exact he message r (List.mem_singleton.mp hmem).symm

/-- The other parties end no job that is running. -/
theorem Counting.others (h : Counting j c s tr) (ho : Others j s s') : Counting j c s' tr :=
  ⟨h.unended.others ho, h.untold⟩

/-- A hushed step neither ends the job nor announces. -/
theorem Counting.hushed (h : Counting j c s tr) (he : Hushed j s e s') :
    Counting j c s' (tr ++ [e]) :=
  ⟨h.unended.busy he.1.1 he.1.2.2, fun hc => (h.untold hc).concat he.2⟩

/-- A hushed step meets the guarantee. -/
theorem tells_of_hushed (h : Hushed j s e s') : Tells j s tr e s' where
  announces message r he := absurd he (h.2 message r)
  ends _ he := absurd (by rw [he]; rfl) h.1.2.2
  marks he := absurd (by rw [he]; rfl) h.1.2.1

/-- A call while the job has not ended. -/
theorem tells_ask {c : Call} {r : Reply c} (h : Unended j (.shutdown .assisted) s) :
    Tells j s tr (.ask (j, c) r) s' := ⟨fun _ _ _ => h, nofun, nofun⟩

/-- A statement that neither announces, nor marks the job, nor ends it. -/
theorem wp_hushed {x : Py L α} (hx : Keeps (Hushed j) anyLocals x) (h : Counting j c s tr) :
    wp (Others j) (Tells j) x (fun _ _ => Counting j c) (fun _ _ => Counting j c) ℓ s tr :=
  wp_mono (wp_keeps (I := Counting j c) hx (fun _ _ _ ho h => h.others ho)
    (fun _ _ _ _ h he => ⟨h.hushed he, tells_of_hushed he⟩) h) (fun _ _ _ _ h => h.2)
    fun _ _ _ _ h => h.2

/-- Such a statement, and what follows it. -/
theorem wp_hushed_bind {x : Py L α} {f : α → Py L β} {Q : β → L → World → List Ev → Prop}
    {E : Exn → L → World → List Ev → Prop} (hx : Keeps (Hushed j) anyLocals x)
    (h : Counting j c s tr) (hE : ∀ e ℓ s tr, Unended j (.shutdown .assisted) s → E e ℓ s tr)
    (hf : ∀ a ℓ s tr, Counting j c s tr → wp (Others j) (Tells j) (f a) Q E ℓ s tr) :
    wp (Others j) (Tells j) (x >>= f) Q E ℓ s tr := by
  rw [wp_bind]
  exact wp_mono (wp_hushed hx h) (fun a ℓ s tr h => hf a ℓ s tr h)
    fun e ℓ s tr h => hE e ℓ s tr h.unended

/-- Such a statement after the end of the job. -/
theorem wp_hushed_after {x : Py L α} (hx : Keeps (Hushed j) anyLocals x) :
    wp (Others j) (Tells j) x (fun _ _ _ _ => True) (fun _ _ _ _ => True) ℓ s tr :=
  wp_mono (wp_keeps (I := fun _ _ => True) hx (fun _ _ _ _ h => h)
    (fun _ _ _ _ _ he => ⟨trivial, tells_of_hushed he⟩) trivial) (fun _ _ _ _ _ => trivial)
    fun _ _ _ _ _ => trivial

/-- A session puts no question. -/
theorem keeps_hushed_of_session {f : World → Except Exn (α × World)} {label : α → Label}
    (h : Keeps (Acts (fun c => c ≠ .mark ∧ c ≠ .finish) j) V (session f label : Py L α)) :
    Keeps (Hushed j) V (session f label : Py L α) := by
  have htx : Keeps (fun _ e _ => ∀ message r, e ≠ .ask (j, .announce message) r) V
      (session f label : Py L α) :=
    keeps_bind (keeps_tx _ _ fun _ _ _ => nofun) fun _ => keeps_ofExcept _
  exact h.and htx

/-- A query is hushed. -/
theorem keeps_hushed_query (f : World → Except Exn α) :
    Keeps (Hushed j) V (query f : Py L α) :=
  keeps_hushed_of_session (keeps_query ⟨nofun, nofun⟩ f)

/-- So is a line of the log. -/
theorem keeps_hushed_appendLog (message : String) :
    Keeps (Hushed j) V (appendLog j message : Py L Unit) :=
  keeps_bind (Exec.keeps_ask _ fun _ _ => ⟨⟨⟨rfl, rfl⟩, nofun, nofun⟩, nofun⟩) fun _ => keeps_pure _

/-- So is opening the log. -/
theorem keeps_hushed_openLog (kind : JobKind) : Keeps (Hushed j) V (openLog j kind : Py L Unit) := by
  refine keeps_bind (keeps_hushed_appendLog _) fun _ => ?_
  split
  · exact keeps_hushed_appendLog _
  · exact keeps_pure _

/-- The ticks of a countdown are hushed: what it announces is announced before them. -/
theorem keeps_hushed_countdown (total n : ℕ) :
    Keeps (Hushed j) V (countdown (databaseCountdownControl j) total n : Py L _) :=
  keeps_countdown total (fun _ _ => keeps_hushed_of_session
    (keeps_countdownUpdate ⟨nofun, nofun⟩ ⟨nofun, nofun⟩ _ _ _ _ _)) n

/-- **The announcement of the countdown**: where no player is online nothing is announced. -/
theorem wp_announceCountdown (minutes : ℕ) (h : Counting j True s tr) :
    wp (Others j) (Tells j) (announceCountdown j minutes : Py L _)
      (fun answer _ => Counting j (answer = some 0))
      (fun _ _ s _ => Unended j (.shutdown .assisted) s) ℓ s tr := by
  -- a failure of the server to answer ends the shutdown, any other one the job
  have hrescue {e : Exn} {s : World} {tr : List Ev} {ℓ : L}
      (hu : Unended j (.shutdown .assisted) s) :
      wp (Others j) (Tells j)
        (if e = .fault .palworldRest then pure none else Exec.raise e : Py L (Option ℕ))
        (fun answer _ => Counting j (answer = some 0))
        (fun _ _ s _ => Unended j (.shutdown .assisted) s) ℓ s tr := by
    rw [wp_ite]
    exact ⟨fun _ => (wp_pure _).mpr ⟨hu, nofun⟩, fun _ => (wp_raise _).mpr hu⟩
  rw [announceCountdown, wp_tryCatch, wp_bind, wp_call]
  intro s₁ ho r
  have hu := h.unended.others ho
  refine ⟨tells_ask hu, ?_⟩
  rw [wp_bind, wp_ofReply]
  refine ⟨fun players hr => ?_, fun f _ => hrescue hu⟩
  rw [wp_ite]
  constructor
  · rintro ⟨hplayers, -⟩
    rw [wp_bind, wp_call]
    intro s₂ ho r
    have hu := hu.others ho
    refine ⟨tells_ask hu, ?_⟩
    rw [wp_bind, wp_ofReply]
    refine ⟨fun _ _ => (wp_pure _).mpr ⟨hu, fun hzero => ?_⟩, fun f _ => hrescue hu⟩
    exact absurd (Option.some.inj hzero) hplayers
  · exact fun _ => (wp_pure _).mpr ⟨hu, fun _ => (h.untold trivial).concat nofun⟩

/-- **The stop of the server** does not end in a cancellation. -/
theorem wp_announceAndStop (timeout : ℤ) (h : Unended j (.shutdown .assisted) s) :
    wp (Others j) (Tells j) (announceAndStop j players timeout : Py L _)
      (fun result _ s _ => Unended j (.shutdown .assisted) s ∧ result.outcome ≠ .cancelled)
      (fun _ _ s _ => Unended j (.shutdown .assisted) s) ℓ s tr := by
  have hrest (announced : Bool) {s : World} {tr : List Ev} {ℓ : L}
      (hu : Unended j (.shutdown .assisted) s) :
      wp (Others j) (Tells j)
        (if announced = true then stopServer j players timeout
          else pure (.unsent .failed (some players) (some "communication_failed")) : Py L _)
        (fun result _ s _ => Unended j (.shutdown .assisted) s ∧ result.outcome ≠ .cancelled)
        (fun _ _ s _ => Unended j (.shutdown .assisted) s) ℓ s tr := by
    rw [wp_ite]
    refine ⟨fun _ => ?_, fun _ => (wp_pure _).mpr ⟨hu, nofun⟩⟩
    rw [stopServer, wp_bind, wp_call]
    intro s₁ ho r
    have hu := hu.others ho
    refine ⟨tells_ask hu, ?_⟩
    rw [wp_bind, wp_ofReply]
    refine ⟨fun result _ => (wp_pure _).mpr ⟨hu, ?_⟩, fun _ _ => hu⟩
    show (if result.succeeded = true then ShutdownOutcome.succeeded else .failed) ≠ .cancelled
    split_ifs <;> simp
  rw [announceAndStop, wp_bind, wp_tryCatch, wp_ite]
  refine ⟨fun _ => ?_, fun _ => (wp_pure _).mpr (hrest true h)⟩
  rw [wp_bind, wp_call]
  intro s₁ ho r
  have hu := h.others ho
  refine ⟨tells_ask hu, ?_⟩
  rw [wp_bind, wp_ofReply]
  refine ⟨fun _ _ => (wp_pure _).mpr (hrest true hu), fun f _ => ?_⟩
  rw [wp_ite]
  exact ⟨fun _ => (wp_pure _).mpr (hrest false hu), fun _ => (wp_raise _).mpr hu⟩

/-- **The mark**: a cancellation that it finds was requested before. -/
theorem wp_markIrreversible {Q : CountdownDirective → L → World → List Ev → Prop}
    {E : Exn → L → World → List Ev → Prop} (h : Unended j (.shutdown .assisted) s)
    (hcancel : ∀ s, Unended j (.shutdown .assisted) s →
      Q .cancel ℓ s (tr ++ [.tx (.irreversible j .cancel)]))
    (hcontinue : ∀ s tr, Unended j (.shutdown .assisted) s → Q .continue ℓ s tr)
    (hE : ∀ e s tr, Unended j (.shutdown .assisted) s → E e ℓ s tr) :
    wp (Others j) (Tells j) ((databaseCountdownControl j).markIrreversible : Py L _) Q E ℓ s tr := by
  rw [show (databaseCountdownControl j : CountdownControl L).markIrreversible =
    markIrreversible j "IRREVERSIBLE" 80 from rfl, markIrreversible, wp_session]
  intro s₁ ho
  have hu := h.others ho
  refine ⟨fun d s' hs => ?_, fun e _ => ⟨⟨nofun, nofun, nofun⟩, hE e _ _ hu⟩⟩
  obtain ⟨job, hj, ⟨rfl, hrequested, rfl⟩ | ⟨rfl, -, rfl⟩⟩ := markIrreversible_step hs
  · exact ⟨⟨nofun, nofun, fun _ => ⟨job, hj, hrequested⟩⟩, hcancel s' hu⟩
  · refine ⟨⟨nofun, nofun, nofun⟩, hcontinue _ _ ?_⟩
    obtain ⟨job', hj', hkind, hstatus⟩ := hu
    exact ⟨job'.seal "IRREVERSIBLE" 80, by simp [hj'], hkind, hstatus⟩

/-- **The end of the countdown.** -/
theorem wp_endCountdown (timeout : ℤ) (directive : CountdownDirective)
    (h : Counting j (players = 0) s tr) :
    wp (Others j) (Tells j)
      (endCountdown j players timeout (databaseCountdownControl j) directive : Py L _)
      (fun result _ s tr => Unended j (.shutdown .assisted) s ∧
        (result.outcome = .cancelled → Told j tr))
      (fun _ _ s _ => Unended j (.shutdown .assisted) s) ℓ s tr := by
  have hmark : wp (Others j) (Tells j)
      (endCountdown j players timeout (databaseCountdownControl j) .continue : Py L _)
      (fun result _ s tr => Unended j (.shutdown .assisted) s ∧
        (result.outcome = .cancelled → Told j tr))
      (fun _ _ s _ => Unended j (.shutdown .assisted) s) ℓ s tr := by
    refine (wp_bind ..).mpr ?_
    refine wp_markIrreversible h.unended (fun s hu => ?_) (fun s tr hu => ?_) fun _ _ _ hu => hu
    · exact (wp_pure _).mpr ⟨hu, fun _ _ _ => .inr (by simp)⟩
    · exact wp_mono (wp_announceAndStop timeout hu)
        (fun _ _ _ _ h => ⟨h.1, fun hcancelled => absurd hcancelled h.2⟩) fun _ _ _ _ h => h
  cases directive with
  | cancel =>
    rw [endCountdown, wp_ite]
    refine ⟨fun _ => ?_, fun hzero => ?_⟩
    · rw [wp_bind, announceSuppressed, wp_tryCatch, wp_bind, wp_call]
      intro s₁ ho r
      have hu := h.unended.others ho
      have htold : Told j (tr ++ [.ask (j, .announce cancellationAnnouncement) r]) :=
        fun _ _ => .inl ⟨r, by simp⟩
      have hend : wp (Others j) (Tells j) (pure (.unsent .cancelled (some players) none) :
          Py L AssistedShutdownResult)
          (fun result _ s tr => Unended j (.shutdown .assisted) s ∧
            (result.outcome = .cancelled → Told j tr))
          (fun _ _ s _ => Unended j (.shutdown .assisted) s) ℓ s₁
          (tr ++ [.ask (j, .announce cancellationAnnouncement) r]) :=
        (wp_pure _).mpr ⟨hu, fun _ => htold⟩
      refine ⟨tells_ask hu, ?_⟩
      rw [wp_ofReply]
      refine ⟨fun _ _ => hend, fun f _ => ?_⟩
      rw [wp_ite]
      exact ⟨fun _ => (wp_pure _).mpr hend, fun _ => (wp_raise _).mpr hu⟩
    · exact (wp_pure _).mpr ⟨h.unended, fun _ => (h.untold (not_not.mp hzero)).told⟩
  | _ => exact hmark

/-- **The shutdown.** -/
theorem wp_assistedShutdown (minutes timeout : ℤ) (h : Counting j True s tr) :
    wp (Others j) (Tells j)
      (assistedShutdown j minutes timeout (databaseCountdownControl j) : Py L _)
      (fun result _ s tr => Unended j (.shutdown .assisted) s ∧
        (result.outcome = .cancelled → Told j tr))
      (fun _ _ s _ => Unended j (.shutdown .assisted) s) ℓ s tr := by
  rw [assistedShutdown, wp_bind, wp_raiseIf]
  refine ⟨fun _ => h.unended, fun _ => ?_⟩
  rw [wp_bind]
  refine wp_mono (wp_announceCountdown minutes.toNat h) (fun answer ℓ s tr h => ?_) fun _ _ _ _ h => h
  cases answer with
  | none => exact (wp_pure _).mpr ⟨h.unended, nofun⟩
  | some players =>
    refine wp_hushed_bind (keeps_hushed_countdown _ _) h (fun _ _ _ _ h => h)
      fun directive ℓ s tr h => ?_
    exact wp_endCountdown timeout directive ⟨h.unended, fun hzero => h.untold (by rw [hzero])⟩

/-- The completion of the job by a result. -/
theorem wp_completeShutdownJob_told {result : AssistedShutdownResult}
    {E : Exn → L → World → List Ev → Prop} (h : Unended j (.shutdown .assisted) s)
    (htold : result.outcome = .cancelled → Told j tr) :
    wp (Others j) (Tells j) (completeShutdownJob j result : Py L Unit) (fun _ _ _ _ => True) E
      ℓ s tr := by
  rw [completeShutdownJob, wp_finishJob]
  intro s₁ ho
  refine ⟨fun job _ => ⟨⟨nofun, fun found he => htold ?_, nofun⟩, trivial⟩, fun hnone => ?_⟩
  · obtain ⟨-, -, hstatus⟩ : j = j ∧ job.status = found ∧
        (Job.finishShutdown result job).status = .cancelled := by simpa using he
    rw [show (Job.finishShutdown result job).status = result.outcome.status from rfl] at hstatus
    cases houtcome : result.outcome with
    | cancelled => rfl
    | _ => simp [houtcome, ShutdownOutcome.status] at hstatus
  · obtain ⟨job, hj, -⟩ := h.others ho
    simp [hj] at hnone

/-- **One execution**, the fallback included. -/
theorem wp_processClaimed_tells [Unicode] (cfg : WorkerConfig) (h : Counting j True s tr) :
    wp (Others j) (Tells j) (processClaimed cfg j (.shutdown .assisted) : Py L Unit)
      (fun _ _ _ _ => True) (fun _ _ _ _ => True) ℓ s tr := by
  have hrelease {ℓ : L} {s : World} {tr : List Ev} : wp (Others j) (Tells j)
      (releaseLock j : Py L Unit) (fun _ _ _ _ => True) (fun _ _ _ _ => True) ℓ s tr := by
    rw [releaseLock, wp_session]
    refine fun s₁ _ => ⟨fun _ _ _ => ⟨?_, trivial⟩, by simp⟩
    constructor <;> simp
  have hbody : wp (Others j) (Tells j) (runExecutor cfg j (.shutdown .assisted) : Py L Unit)
      (fun _ _ _ _ => True) (fun _ _ s _ => Unended j (.shutdown .assisted) s) ℓ s tr := by
    rw [runExecutor]
    refine wp_hushed_bind (keeps_hushed_openLog _) h (fun _ _ _ _ h => h) fun _ ℓ s tr h => ?_
    rw [executor, executeAssistedShutdownJob]
    refine wp_hushed_bind (keeps_hushed_query _) h (fun _ _ _ _ h => h)
      fun p ℓ s tr h => ?_
    obtain ⟨minutes, timeout⟩ := p
    rw [wp_bind]
    exact wp_mono (wp_assistedShutdown minutes timeout h)
      (fun _ _ _ _ h => wp_completeShutdownJob_told h.1 h.2) fun _ _ _ _ h => h
  rw [processClaimed, wp_ensuring]
  refine wp_mono (Q := fun _ _ _ _ => True) (E := fun _ _ _ _ => True) ?_
    (fun _ _ _ _ _ => hrelease) fun _ _ _ _ _ => hrelease
  rw [runClaimed, wp_bind, wp_tryCatch, wp_bind]
  refine wp_mono hbody (fun _ ℓ s₁ tr₁ _ => ?_) fun e ℓ s₁ tr₁ hu => ?_
  · rw [wp_pure, if_pos rfl]
    exact wp_hushed_after (keeps_bind (keeps_hushed_query _) fun _ => keeps_hushed_appendLog _)
  · refine wp_hushed_bind (c := False) (keeps_hushed_appendLog _) ⟨hu, fun h => h.elim⟩
      (fun _ _ _ _ _ => trivial) fun _ ℓ s₂ tr₂ h => ?_
    rw [wp_bind]
    refine wp_mono (wp_completeShutdownJob_told h.unended (by simp)) (fun _ ℓ s₃ tr₃ _ => ?_)
      fun _ _ _ _ h => h
    rw [wp_pure, if_neg Bool.false_ne_true]
    exact (wp_pure _).mpr trivial

end Rounds

/-- The contract of the rounds that announce. -/
def telling : Contract where
  guarantee j kind s tr e s' := kind = .shutdown .assisted → Tells j s tr e s'
  post _ _ _ _ _ := True

/-- The contract holds from the claim of any job on. -/
theorem telling_holds [Unicode] : telling.Holds where
  stable _ _ _ _ _ _ _ _ := trivial
  safe cfg j kind s log h := by
    obtain ⟨job, hj, hkind, hrunning, -⟩ := h.row
    by_cases hassisted : kind = .shutdown .assisted
    · subst hassisted
      have huntold : Untold j (claimTrace log j) := by
        intro message r hmem
        simp [claimTrace] at hmem
      have hround : wp (Others j) (Tells j)
          (processClaimed cfg j (.shutdown .assisted) >>= fun _ => pure true : Py Unit Bool)
          (fun _ _ _ _ => True) (fun _ _ _ _ => True) () s (claimTrace log j) := by
        rw [wp_bind]
        exact wp_mono (wp_processClaimed_tells cfg ⟨⟨job, hj, hkind, .inl hrunning⟩, fun _ => huntold⟩)
          (fun _ _ _ _ h => (wp_pure _).mpr h) fun _ _ _ _ h => h
      exact ((safe_of_wp hround).mono fun _ _ _ _ => trivial).guarantee fun _ _ _ _ h _ => h
    · exact Prog.safe_of_forall (fun _ _ _ _ hk => absurd hk hassisted) fun _ _ _ => trivial

/-- The mark of an assisted shutdown is tried while its cancellation is requested. -/
def Occurrence.marksCancelled (s : World) : Occurrence → Bool
  | .work _ (.tx (.irreversible j _)) => (s.jobs.get j).any fun job =>
      job.kind == .shutdown .assisted && job.cancelRequested
  | _ => false

namespace System

/-- In a history, job `j` made a call that was answered by `r`. -/
def Asked (h : History) (j : JobId) (c : Call) (r : Reply c) : Prop :=
  ∃ w s, ((.work w (.ask (j, c) r), s) : Occurrence × World) ∈ h

/-- The countdown of job `j` was announced, to at least one player. -/
def CountdownAnnounced (h : History) (j : JobId) : Prop :=
  ∃ players minutes : ℕ, players ≠ 0 ∧ Asked h j .onlinePlayerCount (.ok players) ∧
    Asked h j (.announce (countdownAnnouncement minutes)) (.ok ())

/-- The announcement that the countdown of job `j` was cancelled was attempted, whatever came
of it. -/
def CancellationAnnounced (h : History) (j : JobId) : Prop :=
  ∃ r, Asked h j (.announce cancellationAnnouncement) r

/-- The policy that no mark of an assisted shutdown finds its cancellation requested. -/
def cancelsInTime : Policy := fun S o => o.marksCancelled S.world = false

instance (S : System) (o : Occurrence) : Decidable (cancelsInTime S o) :=
  inferInstanceAs (Decidable (_ = _))

section Runs

variable {allowed : Policy} {s₀ : World} {h : History} {S S' : System} {o : Occurrence}
  {j : JobId} {c : Call} {r : Reply c} {job : Job} {w : WorkerId} {cfg : WorkerConfig} {p : Round}
  {tr : List Ev}

/-- A call in a longer history is one of before, or the last step. -/
theorem asked_concat {s : World} :
    Asked (h ++ [(o, s)]) j c r ↔ Asked h j c r ∨ ∃ w, o = .work w (.ask (j, c) r) := by
  constructor
  · rintro ⟨w, s', hmem⟩
    rcases List.mem_append.mp hmem with hmem | hmem
    · exact .inl ⟨w, s', hmem⟩
    · obtain ⟨rfl, -⟩ := Prod.mk.inj (List.mem_singleton.mp hmem)
      exact .inr ⟨w, rfl⟩
  · rintro (⟨w, s', hmem⟩ | ⟨w, rfl⟩)
    · exact ⟨w, s', List.mem_append_left _ hmem⟩
    · exact ⟨w, s, List.mem_append_right _ (List.mem_singleton_self _)⟩

variable [Unicode]

/-- A call for job `j` is made in the round that runs it. -/
theorem Stepped.asks {K : Contract} (hs : Stepped K S o S') (ho : o = .work w (.ask (j, c) r))
    (hc : c ≠ .createLog) : ∃ cfg p tr job, S.process w = some (.running cfg p tr) ∧
      claimedIn tr = some j ∧ S.world.jobs.get j = some job ∧ job.status ≠ .pending ∧
      K.guarantee j job.kind S.world tr (.ask (j, c) r) S'.world ∧ S'.world = S.world := by
  obtain ⟨cfg, p, tr, hw, hprog⟩ := hs.work w _ ho
  cases hprog with
  | before _ _ he =>
    rcases he with he | he | ⟨r', he⟩
    · cases he
    · cases he
    · cases he
      exact absurd rfl hc
  | claims _ _ _ he _ => cases he
  | within i kind hi hrow hG hworked =>
    rcases hworked with ⟨rfl, hsame⟩ | ⟨he, -⟩
    · obtain ⟨job, hj, hnot, rfl⟩ := hrow
      exact ⟨cfg, p, tr, job, hw, hi, hj, hnot, hG, hsame⟩
    · cases he

/-- The job of a call has been claimed. -/
theorem Run.asked_claimed (hrun : Run allowed s₀ h S) (hask : Asked h j c r)
    (hc : c ≠ .createLog) : S.world.Claimed j := by
  refine (hrun.induct (M := fun h S => ∀ j c r, Asked h j c r → c ≠ .createLog → S.world.Claimed j)
    Contract.none_holds ?_ ?_).2 j c r hask hc
  · rintro - j c r ⟨w, s, hmem⟩
    cases hmem
  · intro h S o S' _ hs _ ih j c r hask hc
    refine hs.turn.keeps_claimed ?_
    rcases asked_concat.mp hask with hask | ⟨w, ho⟩
    · exact ih j c r hask hc
    · obtain ⟨_, _, _, job, _, _, hj, hnot, -⟩ := hs.asks ho hc
      exact ⟨job, hj, hnot⟩

/-- **Every call of a job is in the trace of the round that runs it.** -/
theorem Run.asked_mem_trace (hrun : Run allowed s₀ h S)
    (hw : S.process w = some (.running cfg p tr)) (hj : claimedIn tr = some j)
    (hask : Asked h j c r) (hc : c ≠ .createLog) : (.ask (j, c) r : Ev) ∈ tr := by
  refine (hrun.induct (M := fun h S => ∀ w cfg p tr j c r,
    S.process w = some (.running cfg p tr) → claimedIn tr = some j → Asked h j c r →
      c ≠ .createLog → (.ask (j, c) r : Ev) ∈ tr) Contract.none_holds (by simp) ?_).2
      w cfg p tr j c r hw hj hask hc
  intro h S o S' hrun hs _ ih w cfg p tr j c r hw hj hask hc
  -- a step that is no call of a round, and after which `w` is where it was
  have hkeep (hold : S.process w = some (.running cfg p tr))
      (ho : ∀ w' e, o ≠ .work w' e) : (.ask (j, c) r : Ev) ∈ tr := by
    rcases asked_concat.mp hask with hask | ⟨w', rfl⟩
    · exact ih w cfg p tr j c r hold hj hask hc
    · exact absurd rfl (ho w' _)
  cases hs.step with
  | request r => exact hkeep hw (by simp)
  | clock n => exact hkeep hw (by simp)
  | heartbeat w' hw' => exact hkeep hw (by simp)
  | work w' cfg' p₀ p' tr' e' s' hw' hstep =>
    by_cases hww : w = w'
    · subst hww
      obtain ⟨rfl, rfl, rfl⟩ : cfg' = cfg ∧ p' = p ∧ tr' ++ [e'] = tr := by simpa using hw
      rcases asked_concat.mp hask with hask | ⟨w'', ho⟩
      · obtain ⟨cfg₁, p₁, tr₁, hw₁, hprog⟩ := hs.work w e' rfl
        obtain ⟨rfl, rfl, rfl⟩ : cfg' = cfg₁ ∧ p₀ = p₁ ∧ tr' = tr₁ := by simpa [hw'] using hw₁
        cases hprog with
        | before _ h' => simp [h'] at hj
        | claims i _ h' _ hi =>
          obtain rfl : i = j := by simpa [h'] using hj
          exact absurd (hrun.asked_claimed hask hc) hi
        | within i _ h' =>
          obtain rfl : i = j := by simpa [claimedIn_append h' [e']] using hj
          exact List.mem_append_left _ (ih w cfg' p₀ tr' i c r hw' h' hask hc)
      · obtain ⟨-, rfl⟩ : w = w'' ∧ e' = .ask (j, c) r := by simpa using ho
        simp
    · rw [set_process_ne _ _ hww] at hw
      rcases asked_concat.mp hask with hask | ⟨w'', ho⟩
      · exact ih w cfg p tr j c r hw hj hask hc
      · obtain ⟨rfl, rfl⟩ : w' = w'' ∧ e' = .ask (j, c) r := by simpa using ho
        obtain ⟨cfg₁, p₁, tr₁, _, hw₁, hj₁, -⟩ := hs.asks rfl hc
        exact absurd (hs.inv.apart _ _ _ _ _ _ _ _ j hw hw₁ hj hj₁) hww
  | call w' cfg' hw' =>
    by_cases hww : w = w'
    · subst hww
      obtain ⟨-, -, rfl⟩ : cfg' = cfg ∧ processNext cfg' () = p ∧ [] = tr := by simpa using hw
      cases hj
    · exact hkeep (by rwa [set_process_ne _ _ hww] at hw) (by simp)
  | boot cfg' s' _ _ =>
    by_cases hww : w = cfg'.workerId
    · subst hww
      simp at hw
    · exact hkeep (by rwa [set_process_ne _ _ hww] at hw) (by simp)
  | recover w' | ended w' | crash w' | leave w' =>
    by_cases hww : w = w'
    · subst hww
      simp at hw
    · exact hkeep (by rwa [set_process_ne _ _ hww] at hw) (by simp)

/-- No mark of an assisted shutdown has found a cancellation. -/
theorem Run.not_marked (hrun : Run cancelsInTime s₀ h S)
    (hj : S.world.jobs.get j = some job) (hkind : job.kind = .shutdown .assisted) (s : World) :
    ((.work w (.tx (.irreversible j .cancel)), s) : Occurrence × World) ∉ h := by
  intro hmem
  suffices ∃ job, S.world.jobs.get j = some job ∧ job.kind ≠ .shutdown .assisted by
    obtain ⟨job', hj', hother⟩ := this
    obtain rfl : job = job' := by simpa [hj] using hj'
    exact hother hkind
  refine (hrun.induct (M := fun h S => ∀ w j s,
    ((.work w (.tx (.irreversible j .cancel)), s) : Occurrence × World) ∈ h →
      ∃ job, S.world.jobs.get j = some job ∧ job.kind ≠ .shutdown .assisted)
    telling_holds (by simp) ?_).2 w j s hmem
  intro h S o S' _ hs hallowed ih w j s hmem
  suffices ∃ job, S.world.jobs.get j = some job ∧ job.kind ≠ .shutdown .assisted by
    obtain ⟨job, hj, hother⟩ := this
    obtain ⟨job', hj', hmoved⟩ := hs.turn.moved hj
    exact ⟨job', hj', by rwa [hmoved.kind]⟩
  rcases List.mem_append.mp hmem with hmem | hmem
  · exact ih w j s hmem
  obtain ⟨ho, -⟩ := Prod.mk.inj (List.mem_singleton.mp hmem)
  obtain ⟨cfg, p, tr, -, hprog⟩ := hs.work w _ ho.symm
  cases hprog with
  | before _ _ he => simp at he
  | claims _ _ _ he _ => cases he
  | within i kind _ hrow hG hworked =>
    obtain rfl : j = i := by
      rcases hworked with hbusy | ⟨he, -⟩
      · exact Effect.about hbusy
      · cases he
    obtain ⟨job, hj, -, rfl⟩ := hrow
    refine ⟨job, hj, fun hassisted => ?_⟩
    obtain ⟨job', hj', hrequested⟩ := (hG hassisted).marks rfl
    obtain rfl : job = job' := by simpa [hj] using hj'
    subst ho
    simp [cancelsInTime, Occurrence.marksCancelled, hj, hassisted, hrequested] at hallowed

/-- A round that ends its job as cancelled has told the players. -/
theorem Run.told_of_finish {found : JobStatus} (hrun : Run cancelsInTime s₀ h S)
    (hs : Stepped telling S o S') (ho : o = .work w (.tx (.finish j found .cancelled)))
    (hj : S.world.jobs.get j = some job) (hkind : job.kind = .shutdown .assisted) {minutes : ℕ}
    (hannounced : Asked h j (.announce (countdownAnnouncement minutes)) (.ok ())) :
    CancellationAnnounced h j := by
  obtain ⟨cfg, p, tr, hw, hprog⟩ := hs.work w _ ho
  cases hprog with
  | before _ _ he => simp at he
  | claims _ _ _ he _ => cases he
  | within i kind hi hrow hG hworked =>
    obtain rfl : j = i := by
      rcases hworked with hbusy | ⟨he, -⟩
      · exact Effect.about hbusy
      · cases he
    obtain ⟨job', hj', -, rfl⟩ := hrow
    obtain rfl : job = job' := by simpa [hj] using hj'
    have hmem := hrun.asked_mem_trace hw hi hannounced (by simp)
    rcases (hG hkind).ends found rfl minutes hmem with ⟨r, htold⟩ | hmarked
    · obtain ⟨s, hmem⟩ := hrun.trace_mem hw htold
      exact ⟨r, w, s, hmem⟩
    · obtain ⟨s, hmem⟩ := hrun.trace_mem hw hmarked
      exact absurd hmem (hrun.not_marked hj hkind s)

/-- Players who were told of the countdown of a cancelled job have been told that it was
cancelled. -/
theorem Run.told (hrun : Run cancelsInTime s₀ h S) (hj : S.world.jobs.get j = some job)
    (hkind : job.kind = .shutdown .assisted) (hstatus : job.status = .cancelled) {minutes : ℕ}
    (hannounced : Asked h j (.announce (countdownAnnouncement minutes)) (.ok ())) :
    CancellationAnnounced h j := by
  refine (hrun.induct (M := fun h S => ∀ j job minutes, S.world.jobs.get j = some job →
    job.kind = .shutdown .assisted → job.status = .cancelled →
      Asked h j (.announce (countdownAnnouncement minutes)) (.ok ()) → CancellationAnnounced h j)
    telling_holds ?_ ?_).2 j job minutes hj hkind hstatus hannounced
  · intro hs j job minutes hj
    simp [hs.jobs] at hj
  intro h S o S' hrun hs hallowed ih j job' minutes hj' hkind hstatus hannounced
  have hlater (htold : CancellationAnnounced h j) :
      CancellationAnnounced (h ++ [(o, S'.world)]) j :=
    htold.imp fun _ h => asked_concat.mpr (.inl h)
  cases hj : S.world.jobs.get j with
  | none =>
    have := (hs.turn.fresh hj hj').status
    simp [hstatus] at this
  | some job =>
    obtain ⟨job'', hj'', hrow⟩ := hs.row hj
    obtain rfl : job' = job'' := by simpa [hj'] using hj''
    obtain ⟨job₁, hj₁, hmoved⟩ := hs.turn.moved hj
    obtain rfl : job' = job₁ := by simpa [hj'] using hj₁
    have hassisted : job.kind = .shutdown .assisted := hmoved.kind.symm.trans hkind
    rcases asked_concat.mp hannounced with hannounced | ⟨w, ho⟩
    · cases hrow with
      | kept => exact hlater (ih j _ minutes hj hassisted hstatus hannounced)
      | requested hreq =>
        cases hreq with
        | same | stopNow | cancel =>
          exact hlater (ih j _ minutes hj hassisted hstatus hannounced)
        | cancelPending _ _ hpending _ =>
          obtain ⟨row, hrow, hnot⟩ := hrun.asked_claimed hannounced (by simp)
          obtain rfl : job = row := by simpa [hj] using hrow
          exact absurd hpending hnot
      | interrupted => cases hstatus
      | claimed => cases hstatus
      | worked w tr e ho _ hworked =>
        rcases hworked with hbusy | ⟨-, hrelease⟩
        · rcases hbusy.cases with hprogress | ⟨found, new, rfl, hend⟩
          · obtain ⟨row, hrow, -, hs'⟩ := hprogress.row job hj
            obtain rfl : job' = row := by simpa [hj'] using hrow
            exact hlater (ih j job minutes hj hassisted (hs' ▸ hstatus) hannounced)
          · obtain ⟨-, row, -, hrow, -, -, hnew, -⟩ := hend.row
            obtain rfl : job' = row := by simpa [hj'] using hrow
            obtain rfl : new = .cancelled := hnew.symm.trans hstatus
            exact hlater (hrun.told_of_finish hs ho hj hassisted hannounced)
        · rw [hrelease] at hj'
          obtain rfl : job = job' := by simpa [hj, releaseMaintenanceLock] using hj'
          exact hlater (ih j job minutes hj hassisted hstatus hannounced)
    · -- nothing is announced for a job that has ended, and a call leaves its row as it is
      obtain ⟨_, _, _, row, _, _, hrow', -, hG, hsame⟩ := hs.asks ho (by simp)
      obtain rfl : job = row := by simpa [hj] using hrow'
      obtain ⟨row, hrow', -, hactive⟩ := (hG hassisted).announces _ _ rfl
      obtain rfl : job' = row := by simpa [hsame, hrow'] using hj'.symm
      simp [hstatus] at hactive

/-- **A cancelled countdown tells the players**, in every run in which no mark of an assisted
shutdown finds its cancellation requested. -/
theorem Run.cancellation_announced (hrun : Run cancelsInTime s₀ h S)
    (hj : S.world.jobs.get j = some job) (hkind : job.kind = .shutdown .assisted)
    (hstatus : job.status = .cancelled) (hannounced : CountdownAnnounced h j) :
    CancellationAnnounced h j := by
  obtain ⟨players, minutes, -, -, hannounced⟩ := hannounced
  exact hrun.told hj hkind hstatus hannounced

end Runs

/-- The number of players that an occurrence finds online. -/
def playerCount : Occurrence × World → Option (JobId × ℕ)
  | (.work _ (.ask (j, .onlinePlayerCount) (.ok players)), _) => some (j, players)
  | _ => none

/-- The announcement that an occurrence attempts, and whether it was accepted. -/
def announcement : Occurrence × World → Option (JobId × String × Bool)
  | (.work _ (.ask (j, .announce message) (.ok ())), _) => some (j, message, true)
  | (.work _ (.ask (j, .announce message) (.error _)), _) => some (j, message, false)
  | _ => none

section Readings

variable {h : History} {j : JobId} {players : ℕ} {message : String}

/-- A player count that is read off a history was asked for. -/
theorem asked_of_playerCount (hmem : (j, players) ∈ h.filterMap playerCount) :
    Asked h j .onlinePlayerCount (.ok players) := by
  obtain ⟨x, hx, heq⟩ := List.mem_filterMap.mp hmem
  unfold playerCount at heq
  split at heq
  · obtain ⟨rfl, rfl⟩ := Prod.mk.inj (Option.some.inj heq)
    exact ⟨_, _, hx⟩
  · cases heq

/-- An announcement that is read off a history as accepted was made. -/
theorem asked_of_announcement (hmem : (j, message, true) ∈ h.filterMap announcement) :
    Asked h j (.announce message) (.ok ()) := by
  obtain ⟨x, hx, heq⟩ := List.mem_filterMap.mp hmem
  unfold announcement at heq
  split at heq
  · obtain ⟨rfl, rfl, -⟩ : _ = j ∧ _ = message ∧ true = true := by simpa using heq
    exact ⟨_, _, hx⟩
  · simp at heq
  · cases heq

/-- Every announcement can be read off the history. -/
theorem announcement_of_asked {r : Except Fault Unit} (hask : Asked h j (.announce message) r) :
    ∃ accepted, (j, message, accepted) ∈ h.filterMap announcement := by
  obtain ⟨w, s, hmem⟩ := hask
  cases r with
  | ok u => exact ⟨true, List.mem_filterMap.mpr ⟨_, hmem, rfl⟩⟩
  | error f => exact ⟨false, List.mem_filterMap.mpr ⟨_, hmem, rfl⟩⟩

end Readings

/-- Two players are online. -/
def playersOnline : Oracle
  | (_, .onlinePlayerCount) => some (.ok (2 : ℕ))
  | c => smooth c

/-- A worker runs an assisted shutdown up to its first tick. -/
def countedDown : List Command := round (.assistedShutdown 1 1) playersOnline 6

/-- A cancelled assisted shutdown. -/
def endedCancelled (S : System) : Bool :=
  (S.world.jobs.get 1).any fun job => job.kind == .shutdown .assisted && job.status == .cancelled

/-- What `endedCancelled` tests. -/
theorem endedCancelled_iff {S : System} :
    endedCancelled S = true ↔ ∃ job, S.world.jobs.get 1 = some job ∧
      job.kind = .shutdown .assisted ∧ job.status = .cancelled := by
  simp [endedCancelled, Option.any_eq_true]

/-- The countdown is cut short by a request to stop now, and is then cancelled before the
mark: two players were told of the shutdown, and nobody tells them that it is off. -/
theorem not_cancellation_announced_of_mark :
    ¬∀ (s₀ : World) (h : History) (S : System) (j : JobId) (job : Job),
      @Run .ascii anyPolicy s₀ h S → S.world.jobs.get j = some job →
        job.kind = .shutdown .assisted → job.status = .cancelled → CountdownAnnounced h j →
          CancellationAnnounced h j := by
  intro hall
  obtain ⟨h, S, hrun, hended, hplayers, hannounced⟩ := @exists_run .ascii anyPolicy _
    (countedDown ++ [.request (.shutdownNow 1 none), .work "a:1" playersOnline,
      .request (.shutdownCancel 1 none), .work "a:1" playersOnline, .work "a:1" playersOnline])
    (fun h S => endedCancelled S = true ∧ h.filterMap playerCount = [(1, 2)] ∧
      h.filterMap announcement = [(1, countdownAnnouncement 1, true)]) _ (by decide +kernel)
  obtain ⟨job, hj, hkind, hstatus⟩ := endedCancelled_iff.mp hended
  obtain ⟨r, hasked⟩ := hall _ h S 1 job hrun hj hkind hstatus ⟨2, 1, by decide,
    asked_of_playerCount (by simp [hplayers]), asked_of_announcement (by simp [hannounced])⟩
  obtain ⟨accepted, hmem⟩ := announcement_of_asked hasked
  rw [hannounced] at hmem
  exact absurd hmem (by cases accepted <;> decide)

/-- A run to which the law applies: a tick finds the cancellation. -/
theorem cancellation_announced_tick :
    ∃ h S job, @Run .ascii cancelsInTime World.installed h S ∧ S.world.jobs.get 1 = some job ∧
      job.kind = .shutdown .assisted ∧ job.status = .cancelled ∧ CountdownAnnounced h 1 ∧
      CancellationAnnounced h 1 := by
  obtain ⟨h, S, hrun, hended, hplayers, hannounced⟩ := @exists_run .ascii cancelsInTime _
    (countedDown ++ [.request (.shutdownCancel 1 none), .work "a:1" playersOnline,
      .work "a:1" playersOnline, .work "a:1" playersOnline])
    (fun h S => endedCancelled S = true ∧ h.filterMap playerCount = [(1, 2)] ∧
      (1, countdownAnnouncement 1, true) ∈ h.filterMap announcement) _ (by decide +kernel)
  obtain ⟨job, hj, hkind, hstatus⟩ := endedCancelled_iff.mp hended
  have hcountdown : CountdownAnnounced h 1 :=
    ⟨2, 1, by decide, asked_of_playerCount (by simp [hplayers]), asked_of_announcement hannounced⟩
  exact ⟨h, S, job, hrun, hj, hkind, hstatus, hcountdown,
    @Run.cancellation_announced World.installed h S 1 job .ascii hrun hj hkind hstatus hcountdown⟩

end System

end PalworldManager
