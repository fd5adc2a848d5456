/-
# Shutting the server down

The executors of `shutdown/service.py`.  The countdown of an assisted shutdown
is told by a `CountdownControl` whether to go on; who cancels it and where the
irreversible part begins is the control's affair.  The sleep between two ticks
leaves no trace: other parties may act between any two steps.
-/

import PalworldManager.Jobs.Runtime

namespace PalworldManager

open Effects

variable {L : Type}

/-- `ShutdownOutcome`. -/
inductive ShutdownOutcome where
  | succeeded | failed | cancelled
  deriving DecidableEq, Repr

/-- `AssistedShutdownResult`. -/
structure AssistedShutdownResult where
  outcome : ShutdownOutcome
  onlinePlayers : Option ℕ
  timedOut : Bool
  finalState : Option PalworldHealthState
  failure : Option String
  deriving DecidableEq, Repr

/-- `CountdownControl`. -/
structure CountdownControl (L : Type) where
  update : (remainingSeconds totalSeconds : ℕ) → Py L CountdownDirective
  markIrreversible : Py L CountdownDirective

/-- The announcement before the countdown, and the number of players it was for;
nothing when the server could not be reached. -/
def announceCountdown (j : JobId) (minutes : ℕ) : Py L (Option ℕ) :=
  Exec.tryCatch
    (do
      let players ← ofReply (← ask j .onlinePlayerCount)
      if players ≠ 0 ∧ minutes ≠ 0 then
        let unit := if minutes = 1 then "minuto" else "minutos"
        ofReply (← ask j (.announce
          ("O servidor será desligado em " ++ toString minutes ++ " " ++ unit ++ ".")))
        pure (some players)
      else
        pure (some players))
    fun e => if e = .fault .palworldRest then pure none else Exec.raise e

/-- `with suppress(PalworldRestOperationError): announce(message)`. -/
def announceSuppressed (j : JobId) (message : String) : Py L Unit :=
  Exec.tryCatch (do ofReply (← ask j (.announce message)))
    fun e => if e = .fault .palworldRest then pure () else Exec.raise e

/-- The loop of the countdown: how it ended. -/
def countdown (control : CountdownControl L) (total : ℕ) : ℕ → Py L CountdownDirective
  | 0 => pure .continue
  | remaining + 1 => do
      match ← control.update (remaining + 1) total with
      | .cancel => pure .cancel
      | .executeNow => pure .executeNow
      | .continue => countdown control total remaining

/-- The result of a shutdown that did not get to the server. -/
def AssistedShutdownResult.unsent (outcome : ShutdownOutcome) (players : Option ℕ)
    (failure : Option String) : AssistedShutdownResult where
  outcome := outcome
  onlinePlayers := players
  timedOut := false
  finalState := none
  failure := failure

/-- The part of the shutdown after `mark_irreversible`. -/
def stopServer (j : JobId) (players : ℕ) (stopTimeout : ℤ) : Py L AssistedShutdownResult := do
  let result ← ofReply (← ask j (.lifecycle .stop stopTimeout))
  pure
    { outcome := if result.succeeded then .succeeded else .failed
      onlinePlayers := some players
      timedOut := result.timedOut
      finalState := some result.finalState
      failure := if result.succeeded then none else some "stop_failed" }

/-- The announcement that the server goes down now, and the stop. -/
def announceAndStop (j : JobId) (players : ℕ) (stopTimeout : ℤ) :
    Py L AssistedShutdownResult := do
  let announced ← Exec.tryCatch
    (if players ≠ 0 then do
        ofReply (← ask j (.announce "O servidor será desligado agora."))
        pure true
      else pure true)
    fun e => if e = .fault .palworldRest then pure false else Exec.raise e
  if announced then
    stopServer j players stopTimeout
  else
    pure (.unsent .failed (some players) (some "communication_failed"))

/-- `AssistedShutdownExecutor.execute`, from the end of the countdown on. -/
def endCountdown (j : JobId) (players : ℕ) (stopTimeout : ℤ) (control : CountdownControl L) :
    CountdownDirective → Py L AssistedShutdownResult
  | .cancel => do
      if players ≠ 0 then
        announceSuppressed j "O desligamento do servidor foi cancelado."
        pure (.unsent .cancelled (some players) none)
      else
        pure (.unsent .cancelled (some players) none)
  | _ => do
      match ← control.markIrreversible with
      | .cancel => pure (.unsent .cancelled (some players) none)
      | _ => announceAndStop j players stopTimeout

/-- `AssistedShutdownExecutor.execute`. -/
def assistedShutdown (j : JobId) (minutes stopTimeout : ℤ) (control : CountdownControl L) :
    Py L AssistedShutdownResult := do
  Exec.raiseIf (minutes ∉ ([0, 1, 5, 10] : List ℤ)) (.fault .value)
  let total := minutes.toNat * 60
  match ← announceCountdown j minutes.toNat with
  | none => pure (.unsent .failed none (some "communication_failed"))
  | some players => do
      let directive ← countdown control total total
      endCountdown j players stopTimeout control directive

/-- Whether the server is not known to be offline yet; the port is probed only when
its health says so. -/
def stillOpen (j : JobId) (state : PalworldHealthState) : Py L Bool :=
  if state = .offline then do
    ofReply (← ask j .restPortOpen)
  else
    pure true

/-- The loop of `ForcedShutdownExecutor.execute`. -/
def awaitOffline (j : JobId) (deadline : ℕ) : ℕ → Py L AssistedShutdownResult
  | 0 => hang j
  | n + 1 => do
      let state ← ofReply (← ask j .health)
      let isOpen ← stillOpen j state
      if isOpen then
        let now : ℕ ← ask j .now
        if deadline ≤ now then
          pure
            { outcome := .failed
              onlinePlayers := none
              timedOut := true
              finalState := some state
              failure := some "signal_timeout" }
        else
          awaitOffline j deadline n
      else
        pure
          { outcome := .succeeded
            onlinePlayers := none
            timedOut := false
            finalState := some state
            failure := none }

/-- `ForcedShutdownExecutor.execute`. -/
def forcedShutdown (j : JobId) (signal : PalworldSignal) (timeout : ℕ) :
    Py L AssistedShutdownResult := do
  let sent ← Exec.tryCatch
    (do
      ofReply (← ask j (.sendSignal signal))
      pure true)
    fun e => if e = .fault .serviceControl then pure false else Exec.raise e
  if sent then
    let now : ℕ ← ask j .now
    let bound : ℕ ← ask j .bound
    awaitOffline j (now + timeout) bound
  else
    pure
      { outcome := .failed
        onlinePlayers := none
        timedOut := false
        finalState := some .failure
        failure := some "signal_failed" }

end PalworldManager
