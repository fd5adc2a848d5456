/-
# Runs computed from scripts

A `Command` says what is to happen next, and `System.perform` does it where it
can be done.  A `script` is a list of commands; what it computes is a run, and
keeps to a policy that is checked at each step.
-/

import PalworldManager.System.Runs

namespace PalworldManager

open Effects Text

/-- The answers of the outside; where there is none the worker does not go on. -/
abbrev Oracle := (a : Asked) → Option (Reply a.2)

/-- Every call succeeds, nothing is found in the way, and the server is offline. -/
def smooth : Oracle
  | (_, .now) => some (0 : ℕ)
  | (_, .bound) => some (3 : ℕ)
  | (_, .never) => none
  | (_, .createLog) => some (.ok "jobs/log")
  | (_, .appendLog _) => some true
  | (_, .identity) => some ⟨0, "20260101T000000000000Z", "0123456789abcdef0123456789abcdef"⟩
  | (_, .storage _) => some (.ok ())
  | (_, .probe .present) => some (.ok false)
  | (_, .probe _) => some (.ok true)
  | (_, .digest) => some (.ok "0123456789abcdef0123456789abcdef0123456789abcdef0123456789abcdef")
  | (_, .size) => some (.ok (1 : ℕ))
  | (_, .archive) => some (.ok (some "0123456789abcdef0123456789abcdef"))
  | (_, .resolve _ _) => some (.ok true)
  | (_, .isFile _ _) => some (.ok true)
  | (_, .unlink _ _) => some (.ok ())
  | (_, .health) => some (.ok .offline)
  | (_, .lifecycle .stop _) => some (.ok ⟨true, .offline, false⟩)
  | (_, .lifecycle _ _) => some (.ok ⟨true, .online, false⟩)
  | (_, .onlinePlayerCount) => some (.ok (0 : ℕ))
  | (_, .announce _) => some (.ok ())
  | (_, .sendSignal _) => some (.ok ())
  | (_, .restPortOpen) => some (.ok false)
  | (_, .hostPower _) => some (.ok ())
  | (_, .freeBytes) => some (.ok (2 ^ 50 : ℕ))
  | (_, .steamCheck) => some (.ok ⟨"1", "1", none⟩)
  | (_, .applyUpdate) => some (.ok ())
  | (_, .history _) => some (.ok [])
  | (_, .prepare _) => some (.ok ())
  | (_, .prepareRemote _) => some (.ok ())
  | (_, .apply) => some (.ok ())
  | (_, .quota) => some (.ok ⟨2 ^ 50, 0, 2 ^ 50, 0⟩)
  | (_, .listFiles) => some (.ok (0 : ℕ))
  | (_, .stat _) => some (.error .googleDrive)
  | (_, .moveto _ _) => some .done
  | (_, .deletefile _) => some .done

/-- What is to happen next. -/
inductive Command where
  | request (r : WebRequest)
  | clock (seconds : ℕ)
  | boot (cfg : WorkerConfig)
  | recover (w : WorkerId)
  | call (w : WorkerId)
  | work (w : WorkerId) (oracle : Oracle)
  | ended (w : WorkerId)
  | crash (w : WorkerId)

/-- A database with the settings it is installed with. -/
def World.installed : World where
  jobs := .empty
  lock := none
  heartbeat := none
  backups := .empty
  settings := defaultManagerSettings
  timezones := []
  localFiles := fun _ => none
  remoteFiles := fun _ => none
  now := 0

namespace System

instance (S : System) (o : Occurrence) : Decidable (anyPolicy S o) := .isTrue trivial

/-- It is as the migrations leave it. -/
theorem initial_installed : Initial World.installed := ⟨rfl, rfl, rfl, rfl, rfl⟩

variable [Unicode]

/-- Do what a command says. -/
def perform (S : System) : Command → Option (Occurrence × System)
  | .request r => some (.request r (handle S.world r).1, { S with world := (handle S.world r).2 })
  | .clock seconds =>
      some (.clock, { S with world := { S.world with now := S.world.now + seconds } })
  | .boot cfg =>
      match S.process cfg.workerId, recordWorkerStart cfg.workerId S.world with
      | none, .ok ((), s') => some (.boot cfg.workerId, S.set s' cfg.workerId (some (.starting cfg)))
      | _, _ => none
  | .recover w =>
      match S.process w with
      | some (.starting cfg) =>
          some (.recover w, S.set (recoverInterruptedJobs S.world) w (some (.idle cfg)))
      | _ => none
  | .call w =>
      match S.process w with
      | some (.idle cfg) =>
          some (.call w, S.set S.world w (some (.running cfg (processNext cfg ()) [])))
      | _ => none
  | .work w oracle =>
      match S.process w with
      | some (.running cfg p tr) =>
          (p.next oracle S.world).map fun (e, s', p') =>
            (.work w e, S.set s' w (some (.running cfg p' (tr ++ [e]))))
      | _ => none
  | .ended w =>
      match S.process w with
      | some (.running cfg (.ret (.ok _, ())) _) =>
          some (.ended w, S.set S.world w (some (.idle cfg)))
      | _ => none
  | .crash w => some (.crash w, S.set S.world w none)

/-- What a command does is a step of the system. -/
theorem perform_step {S S' : System} {c : Command} {o : Occurrence}
    (h : S.perform c = some (o, S')) : Step S o S' := by
  cases c with
  | request r =>
    obtain ⟨rfl, rfl⟩ : _ = o ∧ _ = S' := by simpa [perform] using h
    exact .request S r
  | clock seconds =>
    obtain ⟨rfl, rfl⟩ : _ = o ∧ _ = S' := by simpa [perform] using h
    exact .clock S seconds
  | crash w =>
    obtain ⟨rfl, rfl⟩ : _ = o ∧ _ = S' := by simpa [perform] using h
    exact .crash S w
  | boot cfg =>
    rw [perform] at h
    split at h
    · rename_i s' hfree hlease
      obtain ⟨rfl, rfl⟩ : _ = o ∧ _ = S' := by simpa using h
      exact .boot S cfg s' hfree hlease
    · cases h
  | recover w =>
    rw [perform] at h
    split at h
    · rename_i cfg hw
      obtain ⟨rfl, rfl⟩ : _ = o ∧ _ = S' := by simpa using h
      exact .recover S w cfg hw
    · cases h
  | call w =>
    rw [perform] at h
    split at h
    · rename_i cfg hw
      obtain ⟨rfl, rfl⟩ : _ = o ∧ _ = S' := by simpa using h
      exact .call S w cfg hw
    · cases h
  | work w oracle =>
    rw [perform] at h
    split at h
    · rename_i cfg p tr hw
      obtain ⟨⟨e, s', p'⟩, hnext, heq⟩ := Option.map_eq_some_iff.mp h
      obtain ⟨rfl, rfl⟩ : _ = o ∧ _ = S' := by simpa using heq
      exact .work S w cfg p p' tr e s' hw (Prog.next_step hnext)
    · cases h
  | ended w =>
    rw [perform] at h
    split at h
    · rename_i cfg b tr hw
      obtain ⟨rfl, rfl⟩ : _ = o ∧ _ = S' := by simpa using h
      exact .ended S w cfg b tr hw
    · cases h

/-- The history that a list of commands makes, and where it ends. -/
def script (allowed : Policy) [∀ S o, Decidable (allowed S o)] :
    System → List Command → Option (History × System)
  | S, [] => some ([], S)
  | S, c :: cs => do
      let (o, S') ← S.perform c
      if allowed S o then
        let (h, S'') ← script allowed S' cs
        some ((o, S'.world) :: h, S'')
      else
        none

/-- A script that is carried out goes on with a run. -/
theorem script_run_append {allowed : Policy} [∀ S o, Decidable (allowed S o)] {s₀ : World}
    {cs : List Command} {S S' : System} {h h' : History} (hrun : Run allowed s₀ h S)
    (hs : S.script allowed cs = some (h', S')) : Run allowed s₀ (h ++ h') S' := by
  induction cs generalizing S h h' with
  | nil =>
    obtain ⟨rfl, rfl⟩ : [] = h' ∧ S = S' := by simpa [script] using hs
    simpa using hrun
  | cons c cs ih =>
    simp only [script, Option.bind_eq_bind, Option.bind_eq_some_iff, Prod.exists] at hs
    obtain ⟨o, S₁, hc, hs⟩ := hs
    split_ifs at hs with hallowed
    simp only [Option.bind_eq_some_iff, Prod.exists, Option.some.injEq, Prod.mk.injEq] at hs
    obtain ⟨h₁, S₂, hrest, rfl, rfl⟩ := hs
    simpa using ih (hrun.step hallowed (perform_step hc)) hrest

/-- **What a script computes is a run.** -/
theorem script_run {allowed : Policy} [∀ S o, Decidable (allowed S o)] {s₀ : World}
    {cs : List Command} {S : System} {h : History} (hs₀ : Initial s₀)
    (hs : script allowed ⟨s₀, fun _ => none⟩ cs = some (h, S)) : Run allowed s₀ h S := by
  simpa using script_run_append (.start hs₀) hs

/-- A script shows that there is a run of a kind. -/
theorem exists_run_from {allowed : Policy} [∀ S o, Decidable (allowed S o)] {s₀ : World}
    (hs₀ : Initial s₀) (cs : List Command) (P : History → System → Prop)
    [∀ h S, Decidable (P h S)]
    (hs : ((script allowed ⟨s₀, fun _ => none⟩ cs).any fun r => P r.1 r.2) = true) :
    ∃ h S, Run allowed s₀ h S ∧ P h S := by
  obtain ⟨⟨h, S⟩, hscript, hP⟩ := (Option.any_eq_true ..).mp hs
  exact ⟨h, S, script_run hs₀ hscript, of_decide_eq_true hP⟩

/-- A script shows that there is a run of a kind from the installed database. -/
theorem exists_run {allowed : Policy} [∀ S o, Decidable (allowed S o)] (cs : List Command)
    (P : History → System → Prop) [∀ h S, Decidable (P h S)]
    (hs : ((script allowed ⟨World.installed, fun _ => none⟩ cs).any fun r => P r.1 r.2) = true) :
    ∃ h S, Run allowed World.installed h S ∧ P h S := exists_run_from initial_installed cs P hs

end System

end PalworldManager
