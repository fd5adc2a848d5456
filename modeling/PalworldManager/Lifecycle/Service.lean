/-
# The lifecycle of the server

`PalworldLifecycleExecutor` (`lifecycle/service.py`): a command to the service, and then polls of
its health until the target is reached or the clock is at the deadline.

The clock is any linear order, and what the deadline is after a timeout any function: nothing of
the arithmetic of floating point numbers is used.  The loop is bounded by a number of polls; where
the clock reaches the deadline after some poll, every bound above it gives the same result
(`execute_result`).
-/

import Mathlib.Order.Basic
import PalworldManager.Jobs.Runtime

namespace PalworldManager

section Model

/-- What the adapters of an executor answer: the health before the command, the command, the clock
after it, and at each poll the health, the port, if it is probed, and the clock.  The sleep between
two polls reads the clock once more, for its own length only. -/
structure PalworldLifecycleExecutor (T : Type) where
  before : PalworldHealthState
  command : Except Fault Unit
  started : T
  health : ℕ → PalworldHealthState
  portOpen : ℕ → Bool
  clock : ℕ → T
  deadlineAfter : T → ℤ → T

/-- `_reached_target`; the port is probed only of a server that is offline. -/
def reachedTarget (action : LifecycleAction) (state : PalworldHealthState) (portOpen : Bool) :
    Bool :=
  if action ≠ .stop then state == .online else state == .offline && !portOpen

variable {T : Type} [LinearOrder T]

/-- The loop of `execute` from a poll on; nothing if it goes on after so many polls. -/
def PalworldLifecycleExecutor.poll (x : PalworldLifecycleExecutor T) (action : LifecycleAction)
    (deadline : T) : ℕ → ℕ → Bool → Option LifecycleResult
  | 0, _, _ => none
  | polls + 1, k, restartTransitionObserved =>
    let state := x.health k
    let restartTransitionObserved :=
      restartTransitionObserved || (action == .restart && state != .online)
    if restartTransitionObserved && reachedTarget action state (x.portOpen k) then
      some { succeeded := true, finalState := state, timedOut := false }
    else if deadline ≤ x.clock k then
      some { succeeded := false, finalState := state, timedOut := true }
    else x.poll action deadline polls (k + 1) restartTransitionObserved

/-- `PalworldLifecycleExecutor.execute`, bounded by a number of polls. -/
def PalworldLifecycleExecutor.execute (x : PalworldLifecycleExecutor T) (action : LifecycleAction)
    (timeoutSeconds : ℤ) (polls : ℕ) : Except Fault (Option LifecycleResult) :=
  if timeoutSeconds ≤ 0 then .error .value
  else
    let restartTransitionObserved := action != .restart || x.before != .online
    match x.command with
    | .error .serviceControl =>
      .ok (some { succeeded := false, finalState := .failure, timedOut := false })
    | .error e => .error e
    | .ok () =>
      .ok (x.poll action (x.deadlineAfter x.started timeoutSeconds) polls 0
        restartTransitionObserved)

end Model

section Specification

/-- What an action is to bring about. -/
def IsTarget (action : LifecycleAction) (state : PalworldHealthState) (portOpen : Bool) : Prop :=
  match action with
  | .stop => state = .offline ∧ portOpen = false
  | .start | .restart => state = .online

variable {T : Type}

/-- The first poll after which the clock is at or past a deadline. -/
structure PalworldLifecycleExecutor.IsLastPoll [LinearOrder T] (x : PalworldLifecycleExecutor T)
    (deadline : T) (last : ℕ) : Prop where
  reached : deadline ≤ x.clock last
  before : ∀ k < last, x.clock k < deadline

/-- A poll reaches the target, and a restart was seen to have begun. -/
structure PalworldLifecycleExecutor.Reaches (x : PalworldLifecycleExecutor T)
    (action : LifecycleAction) (k : ℕ) : Prop where
  target : IsTarget action (x.health k) (x.portOpen k)
  transition : action = .restart → x.before ≠ .online ∨ ∃ i < k, x.health i ≠ .online

end Specification

section Polls

variable {T : Type} {x : PalworldLifecycleExecutor T} {action : LifecycleAction} {deadline : T}
  {k last polls : ℕ} {observed : Bool}

/-- The target is reached where the source says so. -/
theorem reachedTarget_iff {state : PalworldHealthState} {portOpen : Bool} :
    reachedTarget action state portOpen = true ↔ IsTarget action state portOpen := by
  cases action <;> simp [reachedTarget, IsTarget]

/-- What is known of the transition of a restart before a poll. -/
def PalworldLifecycleExecutor.Observed (x : PalworldLifecycleExecutor T)
    (action : LifecycleAction) (k : ℕ) (observed : Bool) : Prop :=
  observed = true ↔ (action = .restart → x.before ≠ .online ∨ ∃ i < k, x.health i ≠ .online)

/-- At the start only what was not online counts as observed. -/
theorem observed_start : x.Observed action 0 (action != .restart || x.before != .online) := by
  unfold PalworldLifecycleExecutor.Observed
  simp only [Bool.or_eq_true, bne_iff_ne, Nat.not_lt_zero, false_and, exists_false, or_false]
  exact or_iff_not_imp_left.trans (by rw [not_not])

/-- One more poll. -/
theorem observed_step (h : x.Observed action k observed) :
    x.Observed action (k + 1) (observed || (action == .restart && x.health k != .online)) := by
  unfold PalworldLifecycleExecutor.Observed at *
  simp only [Bool.or_eq_true, Bool.and_eq_true, beq_iff_eq, bne_iff_ne, h]
  constructor
  · rintro (h | ⟨-, hk⟩) hrestart
    · exact (h hrestart).imp_right fun ⟨i, hi, hne⟩ => ⟨i, Nat.lt_succ_of_lt hi, hne⟩
    · exact .inr ⟨k, Nat.lt_succ_self k, hk⟩
  · intro h
    by_cases hk : action = .restart ∧ x.health k ≠ .online
    · exact .inr hk
    · refine .inl fun hrestart => (h hrestart).imp_right fun ⟨i, hi, hne⟩ => ?_
      refine ⟨i, Nat.lt_of_le_of_ne (Nat.lt_succ_iff.mp hi) ?_, hne⟩
      rintro rfl
      exact hk ⟨hrestart, hne⟩

/-- The test of a poll. -/
theorem reaches_iff (h : x.Observed action k observed) :
    ((observed || (action == .restart && x.health k != .online)) &&
      reachedTarget action (x.health k) (x.portOpen k)) = true ↔ x.Reaches action k := by
  rw [Bool.and_eq_true, reachedTarget_iff]
  constructor
  · rintro ⟨hobserved, htarget⟩
    refine ⟨htarget, fun hrestart => h.mp ?_ hrestart⟩
    have honline : x.health k = .online := by
      rwa [hrestart] at htarget
    simpa [honline] using hobserved
  · rintro ⟨htarget, htransition⟩
    exact ⟨by rw [h.mpr htransition, Bool.true_or], htarget⟩

variable [LinearOrder T]

/-- **The loop ends at the last poll, if no poll before it reaches the target.** -/
theorem poll_result (hlast : x.IsLastPoll deadline last) (hk : k ≤ last)
    (hobserved : x.Observed action k observed) (hbefore : ∀ i < k, ¬x.Reaches action i)
    (hpolls : last < k + polls) :
    ∃ result, x.poll action deadline polls k observed = some result ∧
      (result.succeeded = true ↔ ∃ i ≤ last, x.Reaches action i) ∧
      (result.succeeded = false → result.timedOut = true ∧ result.finalState = x.health last) := by
  induction polls generalizing k observed with
  | zero => omega
  | succ polls ih =>
    have hiff := reaches_iff hobserved
    simp only [PalworldLifecycleExecutor.poll]
    split_ifs with hreaches hclock
    · exact ⟨_, rfl, iff_of_true rfl ⟨k, hk, hiff.mp hreaches⟩, nofun⟩
    · -- the clock is not past the deadline before the last poll
      have heq : k = last := by
        refine Nat.le_antisymm hk (Nat.not_lt.mp fun hlt => ?_)
        exact (hlast.before k hlt).not_ge hclock
      subst heq
      refine ⟨_, rfl, iff_of_false nofun ?_, fun _ => ⟨rfl, rfl⟩⟩
      rintro ⟨i, hi, hr⟩
      obtain hi | rfl := Nat.lt_or_eq_of_le hi
      · exact hbefore i hi hr
      · exact hreaches (hiff.mpr hr)
    · have hne : k ≠ last := by
        rintro rfl
        exact hclock hlast.reached
      refine ih (by omega) (observed_step hobserved) (fun i hi => ?_) (by omega)
      obtain hi | rfl := Nat.lt_or_eq_of_le (Nat.lt_succ_iff.mp hi)
      · exact hbefore i hi
      · exact fun hr => hreaches (hiff.mpr hr)

/-- What a bound gives every higher one gives. -/
theorem poll_mono {result : LifecycleResult} {polls' : ℕ}
    (h : x.poll action deadline polls k observed = some result) (hle : polls ≤ polls') :
    x.poll action deadline polls' k observed = some result := by
  induction polls generalizing polls' k observed with
  | zero => cases h
  | succ polls ih =>
    obtain ⟨polls', rfl⟩ := Nat.exists_eq_add_of_le' (Nat.zero_lt_of_lt hle)
    simp only [PalworldLifecycleExecutor.poll] at h ⊢
    split_ifs at h ⊢
    · exact h
    · exact h
    · exact ih h (Nat.le_of_succ_le_succ hle)

/-- **What an execution returns.** -/
theorem execute_result (timeoutSeconds : ℤ)
    (hclock : ∃ k, x.deadlineAfter x.started timeoutSeconds ≤ x.clock k) :
    ∃ last outcome, x.IsLastPoll (x.deadlineAfter x.started timeoutSeconds) last ∧
      (∀ polls, last < polls →
        x.execute action timeoutSeconds polls = Except.map some outcome) ∧
      (0 < timeoutSeconds → x.command = .ok () → ∃ result, outcome = .ok result ∧
        (result.succeeded = true ↔ ∃ k ≤ last, x.Reaches action k) ∧
        (result.succeeded = false →
          result.timedOut = true ∧ result.finalState = x.health last)) := by
  classical
  have hlast : x.IsLastPoll (x.deadlineAfter x.started timeoutSeconds) (Nat.find hclock) :=
    ⟨Nat.find_spec hclock, fun k hk => not_le.mp (Nat.find_min hclock hk)⟩
  by_cases htimeout : timeoutSeconds ≤ 0
  · refine ⟨_, .error .value, hlast, fun polls _ => ?_, fun hpos => absurd hpos htimeout.not_gt⟩
    rw [PalworldLifecycleExecutor.execute, if_pos htimeout]
    rfl
  · unfold PalworldLifecycleExecutor.execute
    simp only [if_neg htimeout]
    split
    · rename_i hcommand
      exact ⟨_, .ok ⟨false, .failure, false⟩, hlast, fun _ _ => rfl,
        fun _ hok => absurd (hcommand.symm.trans hok) nofun⟩
    · rename_i e _ hcommand
      exact ⟨_, .error e, hlast, fun _ _ => rfl,
        fun _ hok => absurd (hcommand.symm.trans hok) nofun⟩
    · -- every bound above the last poll gives what the least of them gives
      have hpolls : Nat.find hclock < 0 + (Nat.find hclock + 1) := by omega
      obtain ⟨result, hresult, hspec⟩ :=
        poll_result hlast (Nat.zero_le _) (observed_start (x := x)) nofun hpolls
      refine ⟨_, .ok result, hlast, fun polls hpolls => ?_, fun _ _ => ⟨result, rfl, hspec⟩⟩
      rw [poll_mono hresult hpolls]
      rfl

/-- A server that reports `ONLINE` before a restart, goes down, and is back at the third poll. -/
def restartingServer : PalworldLifecycleExecutor ℕ where
  before := .online
  command := .ok ()
  started := 10
  health k := if k = 1 then .offline else .online
  portOpen _ := true
  clock k := 11 + k
  deadlineAfter t timeout := t + timeout.toNat

/-- A restart that succeeds at the last poll. -/
theorem execute_result_restart : ∃ last outcome,
    restartingServer.IsLastPoll (restartingServer.deadlineAfter 10 3) last ∧
      (∀ polls, last < polls →
        restartingServer.execute .restart 3 polls = Except.map some outcome) ∧
      ((0 : ℤ) < 3 → restartingServer.command = .ok () → ∃ result, outcome = .ok result ∧
        (result.succeeded = true ↔ ∃ k ≤ last, restartingServer.Reaches .restart k) ∧
        (result.succeeded = false →
          result.timedOut = true ∧ result.finalState = restartingServer.health last)) :=
  execute_result 3 ⟨2, by decide⟩

end Polls

example : (restartingServer.execute .restart 3 5).toOption =
    some (some { succeeded := true, finalState := .online, timedOut := false }) := by decide

end PalworldManager
