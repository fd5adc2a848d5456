/-
# The power of the host

A host power job (`host_power/jobs.py`) may ask the host to reboot or to go down only once
the server is known to be stopped: its health was observed offline, or the safe shutdown
returned success.  `wp_processClaimed_hostPower` follows one execution of such a job,
the fallback of the worker included, whatever every call answers and whatever the other
parties do meanwhile.

Nothing but the request itself is of class `call` in these jobs, and nothing but their
completion of class `finish`; every other statement is passed over (`wp_quiet_bind`).
-/

import PalworldManager.System.Escalation
import PalworldManager.System.Script

namespace PalworldManager

open Effects Text
open Effects.Exec hiding bind ask

/-- The answer of the host, if a step is a request for its power. -/
def hostAnswer : Ev → Option (Except Fault Unit)
  | .ask (_, .hostPower _) r => some r
  | _ => none

/-- The requests for the power of the host in a trace, each by its answer. -/
def hostRequests (tr : List Ev) : List (Except Fault Unit) := tr.filterMap hostAnswer

/-- What an execution of job `j` has seen before it asks for the power of the host: the
server observed offline, or the safe shutdown returning success. -/
def Stopped (j : JobId) (tr : List Ev) : Prop :=
  (.ask (j, .health) (.ok .offline) : Ev) ∈ tr ∨
    ∃ before during after timeout s s' result, tr = before ++ during ++ after ∧
      Prog.Run (Others j) s (assistedShutdown j 0 timeout immediateShutdownControl ()) during s'
        (.ret (.ok result, ())) ∧ result.outcome = .succeeded

/-- What every step of an execution keeps to. -/
def Powers (j : JobId) (_ : World) (tr : List Ev) (e : Ev) (_ : World) : Prop :=
  (hostRequests (tr ++ [e])).length ≤ 1 ∧ (hostAnswer e ≠ none → Stopped j tr)

/-- The classes of steps that neither ask for the power of the host nor end the job. -/
def Quiet (c : StepClass) : Prop := c ≠ .call ∧ c ≠ .finish

/-- The job has not ended, and the host has not accepted a request. -/
structure Refused (j : JobId) (kind : JobKind) (s : World) (tr : List Ev) : Prop where
  unended : Unended j kind s
  once : (hostRequests tr).length ≤ 1
  refused : .ok () ∉ hostRequests tr

/-- The job has succeeded exactly if the host has accepted its request. -/
structure Accounted (j : JobId) (s : World) (tr : List Ev) : Prop where
  row : ∃ job, s.jobs.get j = some job ∧ job.status ≠ .pending ∧
    (job.status = .succeeded ↔ .ok () ∈ hostRequests tr)
  once : (hostRequests tr).length ≤ 1

section Traces

variable {j : JobId} {kind : JobKind} {s s' : World} {e : Ev} {tr tr' : List Ev}

/-- The requests of both traces. -/
@[simp]
theorem hostRequests_append : hostRequests (tr ++ tr') = hostRequests tr ++ hostRequests tr' :=
  List.filterMap_append

/-- A step that asks the host for nothing leaves the requests as they are. -/
theorem hostRequests_concat (h : hostAnswer e = none) :
    hostRequests (tr ++ [e]) = hostRequests tr := by
  simp [hostRequests, h]

/-- What is no call asks nothing of the host. -/
theorem hostAnswer_of_quiet (h : stepClass e ≠ .call) : hostAnswer e = none := by
  cases e with
  | tx l => rfl
  | ask a r =>
    obtain ⟨i, c⟩ := a
    cases c with
    | hostPower action => exact absurd rfl h
    | _ => rfl

/-- What has been seen stays seen. -/
theorem Stopped.append (h : Stopped j tr) (tr' : List Ev) : Stopped j (tr ++ tr') := by
  rcases h with hoffline | ⟨before, during, after, timeout, s, s', result, rfl, hrun⟩
  · exact .inl (List.mem_append_left _ hoffline)
  · exact .inr ⟨before, during, after ++ tr', timeout, s, s', result,
      by simp only [List.append_assoc], hrun⟩

/-- A step that asks the host for nothing is allowed at any time. -/
theorem powers_of_quiet (he : hostAnswer e = none) (h : (hostRequests tr).length ≤ 1) :
    Powers j s tr e s' :=
  ⟨by rwa [hostRequests_concat he], fun hne => absurd he hne⟩

/-- A job that has not ended has not succeeded, nor was its request accepted. -/
theorem Refused.accounted (h : Refused j kind s tr) : Accounted j s tr := by
  obtain ⟨job, hj, -, hs⟩ := h.unended
  refine ⟨⟨job, hj, ?_, ?_⟩, h.once⟩
  · rintro hp
    simp [hp] at hs
  · constructor
    · intro hsucceeded
      simp [hsucceeded] at hs
    · exact fun hok => absurd hok h.refused

/-- The other parties turn no job into a succeeded one, or out of it. -/
theorem Accounted.others (h : Accounted j s tr) (ho : Others j s s') : Accounted j s' tr := by
  obtain ⟨job, hj, hnot, hiff⟩ := h.row
  obtain ⟨job', hj', ht⟩ := ho job hj hnot
  refine ⟨⟨job', hj', ht.not_pending hnot, ?_⟩, h.once⟩
  rcases ht.status with ⟨hs, -⟩ | ⟨hs, hs'⟩
  · rwa [hs]
  · rw [← hiff, hs, hs']
    simp

/-- Nor does a step that leaves the jobs and the host alone. -/
theorem Accounted.jobs (h : Accounted j s tr) (hjobs : s'.jobs = s.jobs) (he : hostAnswer e = none) :
    Accounted j s' (tr ++ [e]) := by
  obtain ⟨hrow, honce⟩ := h
  refine ⟨?_, ?_⟩
  · rwa [hjobs, hostRequests_concat he]
  · rwa [hostRequests_concat he]

end Traces

section Rounds

variable {α β : Type} {j : JobId} {kind : JobKind} {s : World} {tr : List Ev}

/-- **A statement that neither asks for the power of the host nor ends the job** is passed
over. -/
theorem wp_quiet {x : Py Unit α} (hx : Keeps (Acts Quiet j) anyLocals x) (h : Unended j kind s)
    (honce : (hostRequests tr).length ≤ 1) :
    wp (Others j) (Powers j) x
      (fun _ _ s' tr' => Unended j kind s' ∧ hostRequests tr' = hostRequests tr ∧ tr <+: tr')
      (fun _ _ s' tr' => Unended j kind s' ∧ hostRequests tr' = hostRequests tr ∧ tr <+: tr')
      () s tr := by
  refine wp_mono (wp_keeps (I := fun s' tr' => Unended j kind s' ∧
      hostRequests tr' = hostRequests tr ∧ tr <+: tr') hx ?_ ?_ ⟨h, rfl, List.prefix_rfl⟩)
    (fun _ _ _ _ h => h.2) fun _ _ _ _ h => h.2
  · exact fun _ _ _ ho ⟨hu, hr, hp⟩ => ⟨hu.others ho, hr, hp⟩
  · rintro s₁ tr₁ e s₂ ⟨hu, hr, hp⟩ ha
    have he : hostAnswer e = none := hostAnswer_of_quiet ha.2.1
    refine ⟨⟨hu.busy ha.1 ha.2.2, by rw [hostRequests_concat he, hr], hp.trans (List.prefix_append _ _)⟩, ?_⟩
    exact powers_of_quiet he (by rwa [hr])

/-- Such a statement, and what follows it. -/
theorem wp_quiet_bind {x : Py Unit α} {f : α → Py Unit β}
    {Q : β → Unit → World → List Ev → Prop} {E : Exn → Unit → World → List Ev → Prop}
    (hx : Keeps (Acts Quiet j) anyLocals x) (h : Refused j kind s tr)
    (hE : ∀ e s tr, Refused j kind s tr → E e () s tr)
    (hf : ∀ a s' tr', Unended j kind s' → hostRequests tr' = hostRequests tr → tr <+: tr' →
      wp (Others j) (Powers j) (f a) Q E () s' tr') :
    wp (Others j) (Powers j) (x >>= f) Q E () s tr := by
  rw [wp_bind]
  refine wp_mono (wp_quiet hx h.unended h.once) (fun a ℓ s' tr' ⟨hu, hr, hp⟩ => hf a s' tr' hu hr hp)
    fun e ℓ s' tr' ⟨hu, hr, _⟩ => hE e s' tr' ?_
  exact ⟨hu, hr ▸ h.once, hr ▸ h.refused⟩

/-- The completion of a job that has not ended. -/
theorem wp_finishHostPower {succeeded : Bool} {initial : Option PalworldHealthState}
    {handling : String} {failure : Option String} {requested : Bool}
    {E : Exn → Unit → World → List Ev → Prop} (h : Unended j kind s)
    (honce : (hostRequests tr).length ≤ 1)
    (hiff : succeeded = true ↔ .ok () ∈ hostRequests tr) :
    wp (Others j) (Powers j)
      (finishJob j (Job.finishHostPower succeeded initial handling failure requested))
      (fun _ _ => Accounted j) E () s tr := by
  rw [wp_finishJob]
  intro s₁ ho
  obtain ⟨row, hrow, -⟩ := h.others ho
  refine ⟨fun job hj => ⟨powers_of_quiet rfl honce, ?_⟩, fun hnone => ?_⟩
  · refine ⟨⟨_, by simp only [World.modifyJob, Table.get_modify_self, hj, Option.map_some]; rfl, ?_, ?_⟩, ?_⟩
    · cases succeeded <;> simp [Job.finishHostPower]
    · rw [hostRequests_concat rfl, ← hiff]
      cases succeeded <;> simp [Job.finishHostPower]
    · rwa [hostRequests_concat rfl]
  · rw [hrow] at hnone
    cases hnone

/-- **The request.** -/
theorem wp_requestHostPower (action : HostPowerAction) (initial : PalworldHealthState)
    (handling : String) (h : Unended j kind s) (hnone : hostRequests tr = [])
    (hstopped : Stopped j tr) :
    wp (Others j) (Powers j) (requestHostPower j action initial handling)
      (fun _ _ => Accounted j) (fun _ _ => Refused j kind) () s tr := by
  have hupdate : Keeps (Acts Quiet j) anyLocals (updateJob j fun job =>
      { job with step := "REQUESTING_HOST_POWER", progress := 90, isCancellable := false } :
        Py Unit Unit) :=
    keeps_updateJob ⟨nofun, nofun⟩ ⟨nofun, nofun⟩
      (fun _ => ⟨⟨rfl, rfl, rfl, rfl, fun h => nomatch h⟩, rfl⟩) fun _ => rfl
  rw [requestHostPower]
  refine wp_quiet_bind hupdate ⟨h, by simp [hnone], by simp [hnone]⟩ (fun _ _ _ h => h)
    fun _ s₁ tr₁ hu hr ⟨later, htr⟩ => ?_
  rw [hnone] at hr
  rw [wp_bind, wp_tryCatch, wp_bind, wp_call]
  intro s₂ ho r
  have hu := hu.others ho
  have hreq : hostRequests (tr₁ ++ [.ask (j, .hostPower action) r]) = [r] := by
    rw [hostRequests_append, hr]
    rfl
  refine ⟨⟨by simp [hreq], fun _ => htr ▸ hstopped.append later⟩, ?_⟩
  rw [wp_bind, wp_ofReply]
  constructor
  · rintro ⟨⟩ rfl
    rw [wp_pure, if_pos rfl]
    exact wp_finishHostPower hu (by simp [hreq]) (by simp [hreq])
  · rintro f rfl
    rw [wp_ite]
    constructor
    · intro _
      rw [wp_pure, if_neg Bool.false_ne_true]
      exact wp_finishHostPower hu (by simp [hreq]) (by simp [hreq])
    · exact fun _ => (wp_raise _).mpr ⟨hu, by simp [hreq], by simp [hreq]⟩

/-- **The executor** asks for the power of the host only of a stopped server. -/
theorem wp_executeHostPower (h : Unended j kind s) (hnone : hostRequests tr = []) :
    wp (Others j) (Powers j) (executeHostPower j) (fun _ _ => Accounted j)
      (fun _ _ => Refused j kind) () s tr := by
  have hrefused {s : World} {tr : List Ev} (hu : Unended j kind s) (hr : hostRequests tr = []) :
      Refused j kind s tr := ⟨hu, by simp [hr], by simp [hr]⟩
  rw [executeHostPower]
  refine wp_quiet_bind (keeps_checkPalworld ⟨nofun, nofun⟩ ⟨nofun, nofun⟩) (hrefused h hnone)
    (fun _ _ _ h => h) fun ⟨action, timeout⟩ s₁ tr₁ hu hr _ => ?_
  rw [hnone] at hr
  rw [wp_bind, wp_call]
  intro s₂ ho r
  have hu := hu.others ho
  have hr₂ : hostRequests (tr₁ ++ [.ask (j, .health) r]) = [] := by
    rw [hostRequests_concat rfl, hr]
  refine ⟨powers_of_quiet rfl (by simp [hr]), ?_⟩
  rw [wp_bind, wp_ofReply]
  refine ⟨?_, fun f _ => hrefused hu hr₂⟩
  rintro initial rfl
  rw [wp_ite]
  constructor
  · rintro rfl
    exact wp_requestHostPower action .offline _ hu hr₂ (.inl (by simp))
  intro _
  have hupdate : Keeps (Acts Quiet j) anyLocals (updateJob j fun job =>
      { job with step := "STOPPING_PALWORLD", progress := 30 } : Py Unit Unit) :=
    keeps_updateJob ⟨nofun, nofun⟩ ⟨nofun, nofun⟩
      (fun _ => ⟨⟨rfl, rfl, rfl, rfl, .inl⟩, rfl⟩) fun _ => rfl
  refine wp_quiet_bind hupdate (hrefused hu hr₂) (fun _ _ _ h => h)
    fun _ s₃ tr₃ hu hr₃ _ => ?_
  rw [hr₂] at hr₃
  have hshutdown : Keeps (Acts Quiet j) anyLocals
      (assistedShutdown j 0 timeout immediateShutdownControl : Py Unit _) :=
    keeps_assistedShutdown ⟨nofun, nofun⟩ ⟨nofun, nofun⟩ _ _ (fun _ _ => keeps_pure _)
      (keeps_pure _)
  rw [wp_bind]
  refine wp_mono (wp_completes (wp_quiet hshutdown hu (by simp [hr₃]))) ?_
    fun e ℓ s' tr' ⟨hu, hr', _⟩ => hrefused hu (hr'.trans hr₃)
  rintro result ⟨⟩ s₄ _ ⟨⟨hu, hr₄, -⟩, steps, rfl, hrun⟩
  rw [hr₃] at hr₄
  rw [wp_ite]
  constructor
  · intro hsucceeded
    refine wp_requestHostPower action initial _ hu hr₄ (.inr ?_)
    exact ⟨tr₃, steps, [], timeout, s₃, s₄, result, (List.append_nil _).symm, hrun, hsucceeded⟩
  · exact fun _ => wp_finishHostPower hu (by simp [hr₄]) (by simp [hr₄])

/-- What comes after the end of the job. -/
theorem wp_accounted {x : Py Unit α} (hx : Keeps (Acts (· = .routine) j) anyLocals x)
    (h : Accounted j s tr) :
    wp (Others j) (Powers j) x (fun _ _ => Accounted j) (fun _ _ => Accounted j) () s tr := by
  refine wp_mono (wp_keeps (I := Accounted j) hx (fun _ _ _ ho h => h.others ho) ?_ h)
    (fun _ _ _ _ h => h.2) fun _ _ _ _ h => h.2
  intro s₁ tr₁ e s₂ h ha
  have he : hostAnswer e = none := hostAnswer_of_quiet (by rw [ha.2]; nofun)
  exact ⟨h.jobs (Busy.sameJobs ha.1 ha.2).jobs he, powers_of_quiet he h.once⟩

/-- **The fallback** of the worker asks the host for nothing, and the job fails. -/
theorem wp_failHostPower (h : Refused j kind s tr) :
    wp (Others j) (Powers j) (failHostPower j) (fun _ _ => Accounted j) (fun _ _ => Accounted j) ()
      s tr := by
  rw [failHostPower]
  refine wp_quiet_bind (keeps_query ⟨nofun, nofun⟩ _) h (fun _ _ _ h => h.accounted)
    fun initial s₁ tr₁ hu hr _ => ?_
  refine wp_finishHostPower hu (hr ▸ h.once) ⟨nofun, fun hok => ?_⟩
  exact absurd (hr ▸ hok) h.refused

/-- **One execution**, the fallback included. -/
theorem wp_processClaimed_hostPower [Unicode] (cfg : WorkerConfig) (action : HostPowerAction)
    (h : Unended j kind s) (hnone : hostRequests tr = []) :
    wp (Others j) (Powers j) (processClaimed cfg j (.hostPower action)) (fun _ _ => Accounted j)
      (fun _ _ => Accounted j) () s tr := by
  have hrelease {s : World} {tr : List Ev} (h : Accounted j s tr) :
      wp (Others j) (Powers j) (releaseLock j) (fun _ _ => Accounted j) (fun _ _ => Accounted j) ()
        s tr := by
    rw [releaseLock, wp_session]
    refine fun s₁ ho => ⟨fun _ s' hs => ⟨powers_of_quiet rfl h.once, ?_⟩, by simp⟩
    obtain rfl : releaseMaintenanceLock j s₁ = s' := by simpa using hs
    exact (h.others ho).jobs rfl rfl
  have hopen : Keeps (Acts Quiet j) anyLocals (openLog j (.hostPower action) : Py Unit Unit) :=
    keeps_openLog (by simp [Quiet]) _
  have hlog (message : String) : Keeps (Acts Quiet j) anyLocals (appendLog j message : Py Unit Unit) :=
    keeps_appendLog (by simp [Quiet]) message
  have hbody : wp (Others j) (Powers j) (runExecutor cfg j (.hostPower action))
      (fun _ _ => Accounted j) (fun _ _ => Refused j kind) () s tr := by
    rw [runExecutor]
    exact wp_quiet_bind hopen ⟨h, by simp [hnone], by simp [hnone]⟩ (fun _ _ _ h => h)
      fun _ s₁ tr₁ hu hr _ => wp_executeHostPower hu (hr.trans hnone)
  rw [processClaimed, wp_ensuring]
  refine wp_mono (Q := fun _ _ => Accounted j) (E := fun _ _ => Accounted j) ?_
    (fun _ _ _ _ => hrelease) fun _ _ _ _ => hrelease
  rw [runClaimed, wp_bind, wp_tryCatch, wp_bind]
  refine wp_mono hbody (fun _ ℓ s₁ tr₁ h => ?_) fun e ℓ s₁ tr₁ h => ?_
  · rw [wp_pure, if_pos rfl]
    exact wp_accounted (keeps_closeLog rfl) h
  · refine wp_quiet_bind (hlog _) h (fun _ _ _ h => h.accounted) fun _ s₂ tr₂ hu hr _ => ?_
    rw [wp_bind]
    refine wp_mono (wp_failHostPower ⟨hu, hr ▸ h.once, hr ▸ h.refused⟩) (fun _ ℓ s₃ tr₃ h => ?_)
      fun _ _ _ _ h => h
    rw [wp_pure, if_neg Bool.false_ne_true]
    exact (wp_pure _).mpr h

/-- **A host power job**, once it is claimed: whatever every call answers or raises, the host
is asked at most once, and only after the server was observed offline or the safe shutdown
returned success; and where the execution is over, the job has succeeded exactly if the
request was accepted. -/
theorem hostPower_requested [Unicode] {cfg : WorkerConfig} {action : HostPowerAction}
    {s₀ : World} {job : Job} {p : Prog World Label Asked (fun a => Reply a.2) (Except Exn Unit × Unit)}
    (hj : s₀.jobs.get j = some job) (hkind : job.kind = .hostPower action)
    (hrunning : job.status = .running)
    (hrun : Prog.Run (Others j) s₀ (processClaimed cfg j (.hostPower action) ()) tr s p) :
    (hostRequests tr).length ≤ 1 ∧
      (∀ before e after, tr = before ++ e :: after → hostAnswer e ≠ none → Stopped j before) ∧
      ∀ r, p = .ret r →
        ((∃ job, s.jobs.get j = some job ∧ job.status = .succeeded) ↔ .ok () ∈ hostRequests tr) := by
  have hsafe : (processClaimed cfg j (.hostPower action) () : Prog _ _ _ _ _).Safe (Others j)
      (Powers j) (fun _ => Accounted j) s₀ [] := by
    refine Prog.Safe.mono (safe_of_wp (wp_processClaimed_hostPower cfg action
      ⟨job, hj, hkind, .inl hrunning⟩ rfl)) ?_
    rintro ⟨r | r, ⟨⟩⟩ s tr h
    · exact h
    · exact h
  have hothers : ∀ r s s' tr, Others j s s' → Accounted j s tr → Accounted j s' tr :=
    fun (_ : Except Exn Unit × Unit) _ _ _ ho h => h.others ho
  have htrans : ∀ a b c, Others j a b → Others j b c → Others j a c := fun _ _ _ => Others.trans
  refine ⟨?_, fun before e after htr he => ?_, ?_⟩
  · exact hrun.invariant (I := fun _ tr => (hostRequests tr).length ≤ 1) (Others.refl j) htrans
      hothers (fun _ _ _ _ h => h) (fun _ _ _ _ h => h.1) (by simp [hostRequests]) hsafe
  · exact hrun.events (Γ := fun tr e => hostAnswer e ≠ none → Stopped j tr) (Others.refl j) htrans
      hothers (fun _ _ _ _ h => h.2) hsafe before e after htr he
  · rintro r rfl
    obtain ⟨⟨job', hj', -, hiff⟩, -⟩ : Accounted j s tr :=
      hrun.safe (Others.refl j) htrans hothers hsafe
    rw [← hiff]
    constructor
    · rintro ⟨job'', hj'', hs⟩
      obtain rfl : job' = job'' := by simpa [hj'] using hj''
      exact hs
    · exact fun hs => ⟨job', hj', hs⟩

end Rounds

section Sample

/-- A reboot of the host that has just been claimed. -/
def rebooting : World :=
  { World.installed with
    jobs := ⟨[(1,
      { kind := .hostPower .reboot
        status := .running
        step := "WAITING"
        progress := 0
        isCancellable := false
        cancelRequested := false
        executeNowRequested := false
        requiresMaintenanceLock := true
        coordinationKey := some .hostPower
        requestedByUserId := none
        claimedBy := none
        createdAt := 0
        result := some [("stop_timeout_seconds", .int 120)]
        logPath := none })], by decide⟩ }

/-- The answers while the server is up, and stops when it is told to. -/
def serverUp : Oracle
  | (_, .health) => some (.ok .online)
  | c => smooth c

/-- The server is stopped, and then the host is asked. -/
theorem hostPower_requested_rebooting :
    ∃ tr s r, Prog.Run (Others 1) rebooting
      (@processClaimed Unit .ascii (.standard "a:1") 1 (.hostPower .reboot) ()) tr s (.ret r) ∧
      (hostRequests tr).length = 1 ∧ (s.jobs.get 1).map Job.status = some .succeeded ∧
      (∀ before e after, tr = before ++ e :: after → hostAnswer e ≠ none → Stopped 1 before) ∧
      .ok () ∈ hostRequests tr := by
  have heval : (Prog.complete serverUp 100 rebooting
      (@processClaimed Unit .ascii (.standard "a:1") 1 (.hostPower .reboot) ())).any (fun r =>
      decide ((hostRequests r.1).length = 1) &&
        decide ((r.2.1.jobs.get 1).map Job.status = some .succeeded)) = true := by
    decide +kernel
  obtain ⟨⟨tr, s, r⟩, hr, hcheck⟩ := exists_some heval
  simp only [Bool.and_eq_true, decide_eq_true_eq] at hcheck
  obtain ⟨hone, hstatus⟩ := hcheck
  have hrun := Prog.complete_run (Others 1) hr
  obtain ⟨-, hstopped, hiff⟩ := @hostPower_requested 1 s tr .ascii _ _ _ _ _ rfl rfl rfl hrun
  obtain ⟨job, hj, hs⟩ := Option.map_eq_some_iff.mp hstatus
  exact ⟨tr, s, r, hrun, hone, hstatus, hstopped, (hiff r rfl).mp ⟨job, hj, hs⟩⟩

end Sample

end PalworldManager
