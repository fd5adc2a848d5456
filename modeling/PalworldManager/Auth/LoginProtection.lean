/-
# The throttle on logins

`auth/login_protection.py`.  Nothing but the log of attempts is kept, and each attempt reads
from it, by two queries, whether a block lasts and how many attempts have failed.  Read back
so, the log of one username is a `Throttle` (`throttleOf`), and an attempt is one step of it
(`attemptUserLogin_spec`).  What holds over every sequence of attempts for a username
(`LoginRun.throttled`) is then what holds over every run of a throttle; the attempts for other
usernames and the changes of the users may fall anywhere between.
-/

import PalworldManager.Auth.Model
import PalworldManager.Limits.Throttle

namespace PalworldManager

open Effects Text Limits

/-- A number of minutes. -/
def minutes (n : ℕ) : ℕ := n * 60000000

/-- `MAXIMUM_FAILED_ATTEMPTS`. -/
def maximumFailedAttempts : ℕ := 5

/-- `LOGIN_BLOCK_DURATION`. -/
def loginBlockDuration : ℕ := minutes 15

structure LoginResult where
  user : Option (ℕ × User)
  blockedUntil : Option ℕ
  deriving DecidableEq, Repr

def LoginResult.authenticated (r : LoginResult) : Bool := r.user.isSome

def LoginResult.blocked (r : LoginResult) : Bool := r.blockedUntil.isSome

/-- `_tracked_username`. -/
def trackedUsername [Unicode] (username : List Char) : Option (List Char) :=
  let normalized := strip username
  if normalized = [] then none
  else some (usernameKey (normalized.take maximumUsernameLength))

/-- `ORDER BY attempted_at DESC, id DESC`. -/
def LatestFirst (x y : ℕ × LoginAttempt) : Prop :=
  y.2.attemptedAt < x.2.attemptedAt ∨ (x.2.attemptedAt = y.2.attemptedAt ∧ y.1 ≤ x.1)

instance : DecidableRel LatestFirst := fun _ _ => inferInstanceAs (Decidable (_ ∨ (_ ∧ _)))

/-- `_active_block`. -/
def activeBlock (s : Accounts) (username : Option (List Char)) (now : ℕ) : Option ℕ :=
  let latest := (s.loginAttempts.select
    (fun _ a => a.username == username && a.blockedUntil.isSome) LatestFirst).head?
  match latest.bind fun r => r.2.blockedUntil with
  | none => none
  | some blockedUntil => if now < blockedUntil then some blockedUntil else none

/-- Whether an attempt goes on with the failures before it. -/
def LoginAttempt.isFailure (a : LoginAttempt) : Bool := !(a.successful || a.blockedUntil.isSome)

/-- `_consecutive_failures`. -/
def consecutiveFailures (s : Accounts) (username : Option (List Char)) : ℕ :=
  let attempts :=
    (s.loginAttempts.select (fun _ a => a.username == username) LatestFirst).take
      maximumFailedAttempts
  (attempts.takeWhile fun r => r.2.isFailure).length

/-- The active user that a login is about. -/
def Accounts.loginUser (s : Accounts) (tracked : Option (List Char)) : Option (ℕ × User) :=
  firstRow s.users fun u => some u.usernameKey == tracked && u.isActive

/-- `session.add(LoginAttempt(...))`. -/
def Accounts.logAttempt (s : Accounts) (a : LoginAttempt) : Accounts :=
  { s with loginAttempts := s.loginAttempts.add a }

section Attempts

variable [Unicode] [PasswordHasher]

/-- What `verify_password_or_dummy` answers in an attempt, where the attempt comes to it. -/
def loginVerified (s : Accounts) (username password : List Char) (now : ℕ) : Option Bool :=
  let tracked := trackedUsername username
  match activeBlock s tracked now with
  | some _ => none
  | none =>
    some (verifyPasswordOrDummy password ((s.loginUser tracked).map fun u => u.2.passwordHash))

/-- `attempt_user_login`, in one immediate transaction. -/
def attemptUserLogin (s : Accounts) (username password : List Char) (now : ℕ) :
    LoginResult × Accounts :=
  let tracked := trackedUsername username
  let user := s.loginUser tracked
  let userId := user.map Prod.fst
  match activeBlock s tracked now with
  | some blockedUntil =>
    (⟨none, some blockedUntil⟩,
      s.logAttempt ⟨userId, tracked, false, now, some blockedUntil⟩)
  | none =>
    let passwordHash := user.map fun u => u.2.passwordHash
    if verifyPasswordOrDummy password passwordHash && user.isSome then
      (⟨user, none⟩, s.logAttempt ⟨userId, tracked, true, now, none⟩)
    else
      let failureCount := consecutiveFailures s tracked + 1
      let newBlock :=
        if maximumFailedAttempts ≤ failureCount then some (now + loginBlockDuration) else none
      (⟨none, newBlock⟩, s.logAttempt ⟨userId, tracked, false, now, newBlock⟩)

/-- What is seen of an attempt: the moment, what the check of the password answered, if it was
made, and the result. -/
structure LoginEvent where
  time : ℕ
  verified : Option Bool
  result : LoginResult
  deriving DecidableEq, Repr

/-- What is seen of an attempt from a state. -/
def loginEvent (s : Accounts) (username password : List Char) (now : ℕ) : LoginEvent :=
  ⟨now, loginVerified s username password now, (attemptUserLogin s username password now).1⟩

/-- The password was checked and was wrong. -/
def LoginEvent.wrong (e : LoginEvent) : Bool := e.verified == some false

/-- The attempt imposes a block. -/
def LoginEvent.imposesBlock (e : LoginEvent) : Bool := e.wrong && e.result.blocked

/-- The sequences of attempts for one tracked username at non-decreasing moments, from a state
in which it has none.  Whatever leaves its attempts alone may happen between two of them. -/
inductive LoginRun (tracked : Option (List Char)) : List LoginEvent → Accounts → Prop
  | start (s : Accounts) : (∀ r ∈ s.loginAttempts.rows, r.2.username ≠ tracked) →
      LoginRun tracked [] s
  | attempt {evs s} (username password : List Char) (now : ℕ) : LoginRun tracked evs s →
      trackedUsername username = tracked → (∀ e ∈ evs, e.time ≤ now) →
      LoginRun tracked
        (evs ++ [loginEvent s username password now])
        (attemptUserLogin s username password now).2
  | other {evs s s'} : LoginRun tracked evs s →
      (∀ k a, a.username = tracked →
        (s'.loginAttempts.get k = some a ↔ s.loginAttempts.get k = some a)) →
      LoginRun tracked evs s'

end Attempts

/-! ### The log of a username -/

instance : Std.Total LatestFirst where
  total x y := by unfold LatestFirst; omega

instance : IsTrans _ LatestFirst where
  trans x y z hxy hyz := by unfold LatestFirst at *; omega

/-- The attempts for a username, the last first. -/
def Accounts.attemptsFor (s : Accounts) (username : Option (List Char)) :
    List (ℕ × LoginAttempt) :=
  s.loginAttempts.select (fun _ a => a.username == username) LatestFirst

/-- The log of a username has the attempts for it. -/
theorem mem_attemptsFor {s : Accounts} {username : Option (List Char)} {k : ℕ}
    {a : LoginAttempt} :
    (k, a) ∈ s.attemptsFor username ↔ s.loginAttempts.get k = some a ∧ a.username = username := by
  simp [Accounts.attemptsFor, Table.mem_select]

/-- Two attempts in both orders are one. -/
theorem id_eq_of_latestFirst (x y : ℕ × LoginAttempt) (hxy : LatestFirst x y)
    (hyx : LatestFirst y x) : x.1 = y.1 := by
  unfold LatestFirst at *
  omega

/-- The log is in its order. -/
theorem attemptsFor_sorted (s : Accounts) (username : Option (List Char)) :
    (s.attemptsFor username).Pairwise LatestFirst :=
  List.pairwise_insertionSort LatestFirst _

/-- No attempt is in it twice. -/
theorem attemptsFor_nodup (s : Accounts) (username : Option (List Char)) :
    (s.attemptsFor username).Nodup :=
  (List.perm_insertionSort LatestFirst _).nodup_iff.mpr (s.loginAttempts.nodup.of_map.filter _)

/-- The query for the last block is the same log, filtered. -/
theorem select_blocks (s : Accounts) (username : Option (List Char)) :
    s.loginAttempts.select (fun _ a => a.username == username && a.blockedUntil.isSome)
      LatestFirst = (s.attemptsFor username).filter fun r => r.2.blockedUntil.isSome := by
  refine Table.select_eq id_eq_of_latestFirst ((attemptsFor_sorted s username).filter _)
    ((attemptsFor_nodup s username).filter _) fun k a => ?_
  rw [List.mem_filter, mem_attemptsFor]
  simp [and_assoc]

/-- A log of attempts, the last first, as a throttle. -/
def throttleOf (log : List (ℕ × LoginAttempt)) : Throttle where
  blockedUntil := (log.find? fun r => r.2.blockedUntil.isSome).bind fun r => r.2.blockedUntil
  failures := (log.takeWhile fun r => r.2.isFailure).length

/-- The block of the source is that of the throttle. -/
theorem activeBlock_eq (s : Accounts) (username : Option (List Char)) (now : ℕ) :
    activeBlock s username now = (throttleOf (s.attemptsFor username)).active now := by
  simp only [activeBlock, throttleOf, Throttle.active, select_blocks, List.head?_filter]
  cases ((s.attemptsFor username).find? fun r => r.2.blockedUntil.isSome).bind
    fun r => r.2.blockedUntil with
  | none => rfl
  | some stop => simp [Option.filter_some]

/-- The limit of the query does not matter to the comparison that is made with the count. -/
theorem consecutiveFailures_eq (s : Accounts) (username : Option (List Char)) :
    consecutiveFailures s username =
      min maximumFailedAttempts (throttleOf (s.attemptsFor username)).failures := by
  simp only [consecutiveFailures, throttleOf, Accounts.attemptsFor]
  rw [← List.take_takeWhile, List.length_take]

/-- An attempt that is not earlier than those before it comes first in the log. -/
theorem attemptsFor_logAttempt {s : Accounts} {username : Option (List Char)} {a : LoginAttempt}
    (ha : a.username = username)
    (hle : ∀ r ∈ s.attemptsFor username, r.2.attemptedAt ≤ a.attemptedAt) :
    (s.logAttempt a).attemptsFor username =
      (s.loginAttempts.nextId, a) :: s.attemptsFor username := by
  have hid : ∀ r ∈ s.attemptsFor username, r.1 < s.loginAttempts.nextId := fun r hr =>
    Table.lt_nextId (mem_attemptsFor.mp hr).1
  refine Table.select_eq id_eq_of_latestFirst ?_ ?_ fun k b => ?_
  · refine List.pairwise_cons.mpr ⟨fun r hr => ?_, attemptsFor_sorted s username⟩
    have htime := hle r hr
    have hlt := hid r hr
    unfold LatestFirst
    dsimp only
    omega
  · refine List.nodup_cons.mpr ⟨fun hmem => ?_, attemptsFor_nodup s username⟩
    exact Nat.lt_irrefl _ (hid _ hmem)
  · rw [List.mem_cons, mem_attemptsFor, Accounts.logAttempt, Table.get_add]
    by_cases hk : k = s.loginAttempts.nextId
    · subst hk
      have hnone := s.loginAttempts.get_nextId
      simp only [Prod.mk.injEq, true_and, hnone, reduceCtorEq, false_and, or_false, if_true,
        Option.some.injEq, beq_iff_eq]
      exact ⟨fun h => ⟨h.symm, h ▸ ha⟩, fun h => h.1.symm⟩
    · simp [hk]

/-- One attempt more, in the throttle that the log stands for. -/
theorem throttleOf_cons (k : ℕ) (a : LoginAttempt) (log : List (ℕ × LoginAttempt)) :
    throttleOf ((k, a) :: log) =
      ⟨if a.blockedUntil.isSome then a.blockedUntil else (throttleOf log).blockedUntil,
        if a.isFailure then (throttleOf log).failures + 1 else 0⟩ := by
  unfold throttleOf
  cases hb : a.blockedUntil.isSome <;> cases hf : a.isFailure <;> simp [hb, hf]

/-- The attempts for a username are all that its log depends on. -/
theorem attemptsFor_congr {s s' : Accounts} {username : Option (List Char)}
    (h : ∀ k a, a.username = username →
      (s'.loginAttempts.get k = some a ↔ s.loginAttempts.get k = some a)) :
    s'.attemptsFor username = s.attemptsFor username := by
  refine Table.select_eq id_eq_of_latestFirst (attemptsFor_sorted s username)
    (attemptsFor_nodup s username) fun k a => ?_
  rw [mem_attemptsFor, beq_iff_eq]
  exact and_congr_left fun ha => (h k a ha).symm

/-! ### An attempt is a step of the throttle -/

section Attempts

variable [Unicode] [PasswordHasher]

/-- An event, as an answer of the throttle. -/
def LoginEvent.answer (e : LoginEvent) : Answer :=
  match e.verified, e.result.blockedUntil with
  | none, stop => .blocked (stop.getD 0)
  | some true, _ => .accepted
  | some false, none => .refused
  | some false, some stop => .imposed stop

/-- An event agrees with itself: a user is returned just where the check of a password says
yes, and an end of a block wherever it is not made. -/
structure LoginEvent.Sound (e : LoginEvent) : Prop where
  user : e.result.user.isSome = (e.verified == some true)
  blocked : e.verified = none → e.result.blockedUntil.isSome

omit [Unicode] [PasswordHasher] in
/-- A wrong attempt is one that the throttle counts. -/
theorem LoginEvent.wrong_eq (e : LoginEvent) : e.wrong = e.answer.fails := by
  unfold LoginEvent.wrong LoginEvent.answer
  rcases e.verified with _ | _ | _ <;> cases e.result.blockedUntil <;> rfl

omit [Unicode] [PasswordHasher] in
/-- A block is imposed by the answer that says so. -/
theorem LoginEvent.imposesBlock_iff (e : LoginEvent) :
    e.imposesBlock = true ↔ ∃ stop, e.answer = .imposed stop := by
  unfold LoginEvent.imposesBlock LoginEvent.wrong LoginEvent.answer LoginResult.blocked
  rcases e.verified with _ | _ | _ <;> cases e.result.blockedUntil <;> simp

omit [Unicode] [PasswordHasher] in
/-- A block that is imposed is told. -/
theorem LoginEvent.blockedUntil_of_imposed {e : LoginEvent} {stop : ℕ}
    (h : e.answer = .imposed stop) : e.result.blockedUntil = some stop := by
  obtain ⟨time, verified, user, blockedUntil⟩ := e
  simp only [LoginEvent.answer] at h
  rcases verified with _ | _ | _ <;> cases blockedUntil <;> cases h
  rfl

omit [Unicode] [PasswordHasher] in
/-- A login succeeds if the throttle accepts. -/
theorem LoginEvent.Sound.authenticated_iff {e : LoginEvent} (h : e.Sound) :
    e.result.authenticated = true ↔ e.answer = .accepted := by
  rw [LoginResult.authenticated, h.user, LoginEvent.answer]
  rcases e.verified with _ | _ | _ <;> cases e.result.blockedUntil <;> simp

omit [Unicode] [PasswordHasher] in
/-- Where a block is active, nothing is verified. -/
theorem LoginEvent.Sound.of_blocked {e : LoginEvent} (h : e.Sound) {stop : ℕ}
    (he : e.answer = .blocked stop) : e.verified = none ∧ e.result = ⟨none, some stop⟩ := by
  obtain ⟨time, verified, user, blockedUntil⟩ := e
  obtain ⟨huser, hblocked⟩ := h
  simp only [LoginEvent.answer] at he
  rcases verified with _ | _ | _
  · obtain ⟨stop', rfl⟩ := Option.isSome_iff_exists.mp (hblocked rfl)
    cases he
    cases user with
    | none => exact ⟨rfl, rfl⟩
    | some u => cases huser
  · cases blockedUntil <;> cases he
  · cases he

/-- **All that an attempt can do.**  It logs one row, and says so. -/
theorem attemptUserLogin_cases (s : Accounts) (username password : List Char) (now : ℕ) :
    ∃ a, (attemptUserLogin s username password now).2 = s.logAttempt a ∧
      a.username = trackedUsername username ∧ a.attemptedAt = now ∧
      ((∃ stop, activeBlock s (trackedUsername username) now = some stop ∧
          a.successful = false ∧ a.blockedUntil = some stop ∧
          loginEvent s username password now = ⟨now, none, none, some stop⟩) ∨
        (activeBlock s (trackedUsername username) now = none ∧
          ((∃ u, a.successful = true ∧ a.blockedUntil = none ∧
              loginEvent s username password now = ⟨now, some true, some u, none⟩) ∨
            (maximumFailedAttempts ≤ consecutiveFailures s (trackedUsername username) + 1 ∧
              a.successful = false ∧ a.blockedUntil = some (now + loginBlockDuration) ∧
              loginEvent s username password now =
                ⟨now, some false, none, some (now + loginBlockDuration)⟩) ∨
            (consecutiveFailures s (trackedUsername username) + 1 < maximumFailedAttempts ∧
              a.successful = false ∧ a.blockedUntil = none ∧
              loginEvent s username password now = ⟨now, some false, none, none⟩)))) := by
  simp only [loginEvent, attemptUserLogin, loginVerified]
  generalize s.loginUser (trackedUsername username) = user
  cases activeBlock s (trackedUsername username) now with
  | some stop => exact ⟨_, rfl, rfl, rfl, .inl ⟨stop, rfl, rfl, rfl, rfl⟩⟩
  | none =>
    cases hpasses : verifyPasswordOrDummy password (user.map fun u => u.2.passwordHash) with
    | true =>
      cases user with
      | none => cases hpasses
      | some u => exact ⟨_, rfl, rfl, rfl, .inr ⟨rfl, .inl ⟨u, rfl, rfl, rfl⟩⟩⟩
    | false =>
      by_cases hl : maximumFailedAttempts ≤ consecutiveFailures s (trackedUsername username) + 1
      · rw [Bool.false_and, if_neg Bool.false_ne_true, if_pos hl]
        exact ⟨_, rfl, rfl, rfl, .inr ⟨rfl, .inr (.inl ⟨hl, rfl, rfl, rfl⟩)⟩⟩
      · rw [Bool.false_and, if_neg Bool.false_ne_true, if_neg hl]
        exact ⟨_, rfl, rfl, rfl, .inr ⟨rfl, .inr (.inr ⟨Nat.lt_of_not_le hl, rfl, rfl, rfl⟩)⟩⟩

/-- An attempt for one username leaves those for the others alone. -/
theorem attemptUserLogin_other {s : Accounts} {username password : List Char} {now : ℕ}
    {tracked : Option (List Char)} (h : trackedUsername username ≠ tracked) (k : ℕ)
    (a : LoginAttempt) (ha : a.username = tracked) :
    (attemptUserLogin s username password now).2.loginAttempts.get k = some a ↔
      s.loginAttempts.get k = some a := by
  obtain ⟨b, hs, hb, -⟩ := attemptUserLogin_cases s username password now
  rw [hs, Accounts.logAttempt, Table.get_add]
  by_cases hk : k = s.loginAttempts.nextId
  · subst hk
    have hnone := s.loginAttempts.get_nextId
    simp only [if_true, hnone, Option.some.injEq, reduceCtorEq, iff_false]
    rintro rfl
    exact h (hb.symm.trans ha)
  · rw [if_neg hk]

/-- **One attempt.**  Where the log is not of the future, and counts no failure while a block
lasts, an attempt is one of the throttle that the log stands for. -/
theorem attemptUserLogin_spec {s : Accounts} {username password : List Char} {now : ℕ}
    {log : List (ℕ × LoginAttempt)} (hlog : s.attemptsFor (trackedUsername username) = log)
    (hle : ∀ r ∈ log, r.2.attemptedAt ≤ now)
    (hzero : ∀ stop, (throttleOf log).active now = some stop → (throttleOf log).failures = 0) :
    ∃ passes a, (loginEvent s username password now).Sound ∧
      (loginEvent s username password now).answer =
        ((throttleOf log).attempt maximumFailedAttempts loginBlockDuration now passes).1 ∧
      (attemptUserLogin s username password now).2.attemptsFor (trackedUsername username) =
        a :: log ∧
      a.2.attemptedAt = now ∧
      throttleOf (a :: log) =
        ((throttleOf log).attempt maximumFailedAttempts loginBlockDuration now passes).2 := by
  have hblock : activeBlock s (trackedUsername username) now = (throttleOf log).active now := by
    rw [activeBlock_eq, hlog]
  have hcount : consecutiveFailures s (trackedUsername username) =
      min maximumFailedAttempts (throttleOf log).failures := by
    rw [consecutiveFailures_eq, hlog]
  obtain ⟨a, hs, ha, hnow, hcases⟩ := attemptUserLogin_cases s username password now
  have hadd : (attemptUserLogin s username password now).2.attemptsFor (trackedUsername username) =
      (s.loginAttempts.nextId, a) :: log := by
    rw [hs, attemptsFor_logAttempt ha (by rw [hlog, hnow]; exact hle), hlog]
  rw [hblock, hcount] at hcases
  rcases hcases with ⟨stop, hactive, hsuccessful, hstop, he⟩ |
    ⟨hactive, ⟨u, hsuccessful, hstop, he⟩ | ⟨hl, hsuccessful, hstop, he⟩ |
      ⟨hl, hsuccessful, hstop, he⟩⟩
  · refine ⟨true, _, ?_, ?_, hadd, hnow, ?_⟩
    · rw [he]; exact ⟨rfl, fun _ => rfl⟩
    · rw [he, Throttle.attempt, hactive]; rfl
    · have hkept := (Option.filter_eq_some_iff.mp hactive).1
      have hfailures := hzero stop hactive
      rw [throttleOf_cons, Throttle.attempt, hactive, hstop, LoginAttempt.isFailure, hstop]
      generalize throttleOf log = t at hkept hfailures
      obtain ⟨_, _⟩ := t
      simp only at hkept hfailures
      simp [hkept, hfailures]
  · refine ⟨true, _, ?_, ?_, hadd, hnow, ?_⟩
    · rw [he]; exact ⟨rfl, fun h => by cases h⟩
    · rw [he, Throttle.attempt, hactive]; rfl
    · rw [throttleOf_cons, Throttle.attempt, hactive, hstop, LoginAttempt.isFailure, hsuccessful]
      rfl
  · have hl' : maximumFailedAttempts ≤ (throttleOf log).failures + 1 := by omega
    refine ⟨false, _, ?_, ?_, hadd, hnow, ?_⟩
    · rw [he]; exact ⟨rfl, fun h => by cases h⟩
    · rw [he, Throttle.attempt, hactive]; simp [hl', LoginEvent.answer]
    · rw [throttleOf_cons, Throttle.attempt, hactive, hstop, LoginAttempt.isFailure, hstop]
      simp [hl']
  · have hl' : ¬maximumFailedAttempts ≤ (throttleOf log).failures + 1 := by
      have hmax : maximumFailedAttempts = 5 := rfl
      omega
    refine ⟨false, _, ?_, ?_, hadd, hnow, ?_⟩
    · rw [he]; exact ⟨rfl, fun h => by cases h⟩
    · rw [he, Throttle.attempt, hactive]; simp [hl', LoginEvent.answer]
    · rw [throttleOf_cons, Throttle.attempt, hactive, hstop, LoginAttempt.isFailure, hsuccessful,
        hstop]
      simp [hl']

/-- **The log of a username is a throttle**, over any sequence of attempts. -/
theorem LoginRun.throttle {tracked : Option (List Char)} {evs : List LoginEvent} {s : Accounts}
    (h : LoginRun tracked evs s) :
    Throttle.Run maximumFailedAttempts loginBlockDuration (evs.map fun e => (e.time, e.answer))
        (throttleOf (s.attemptsFor tracked)) ∧
      (∀ e ∈ evs, e.Sound) ∧
      ∀ r ∈ s.attemptsFor tracked, ∃ e ∈ evs, r.2.attemptedAt = e.time := by
  induction h with
  | start s hnone =>
    have hlog : s.attemptsFor tracked = [] := by
      refine List.eq_nil_iff_forall_not_mem.mpr fun r hr => ?_
      obtain ⟨hget, hr'⟩ := mem_attemptsFor.mp hr
      exact hnone r (Table.mem_rows_iff.mpr hget) hr'
    rw [hlog]
    exact ⟨.start, by simp, by simp⟩
  | @attempt evs s username password now _ htracked hle ih =>
    subst htracked
    obtain ⟨hrun, hsound, htimes⟩ := ih
    have hpast : ∀ r ∈ s.attemptsFor (trackedUsername username), r.2.attemptedAt ≤ now := by
      intro r hr
      obtain ⟨e, he, hre⟩ := htimes r hr
      exact hre ▸ hle e he
    have hzero (stop : ℕ)
        (hactive : (throttleOf (s.attemptsFor (trackedUsername username))).active now = some stop) :
        (throttleOf (s.attemptsFor (trackedUsername username))).failures = 0 := by
      obtain ⟨hkept, hlt⟩ := Option.filter_eq_some_iff.mp hactive
      refine hrun.failures_eq_zero hkept fun x hx => ?_
      obtain ⟨e, he, rfl⟩ := List.mem_map.mp hx
      exact (hle e he).trans_lt (of_decide_eq_true hlt)
    obtain ⟨passes, a, hs, ha, hlog, hnow, hthrottle⟩ := attemptUserLogin_spec rfl hpast hzero
    rw [hlog, List.map_append, List.map_singleton, ha, hthrottle]
    refine ⟨hrun.attempt now passes fun x hx => ?_, fun e he => ?_, fun r hr => ?_⟩
    · obtain ⟨e, he, rfl⟩ := List.mem_map.mp hx
      exact hle e he
    · rcases List.mem_append.mp he with he | he
      · exact hsound e he
      · exact List.mem_singleton.mp he ▸ hs
    · rcases List.mem_cons.mp hr with rfl | hr
      · exact ⟨_, List.mem_append_right _ (List.mem_singleton_self _), hnow⟩
      · obtain ⟨e, he, hre⟩ := htimes r hr
        exact ⟨e, List.mem_append_left _ he, hre⟩
  | other _ hsame ih => rwa [attemptsFor_congr hsame]

section Runs

variable {tracked : Option (List Char)} {evs : List LoginEvent} {s : Accounts}

/-- A block answers every attempt before its end. -/
theorem LoginRun.blocked (h : LoginRun tracked evs s) {pre post : List LoginEvent}
    {e : LoginEvent} (he : evs = pre ++ e :: post) (himposes : e.imposesBlock = true) :
    e.result.blockedUntil = some (e.time + loginBlockDuration) ∧
      ∀ x ∈ post, x.time < e.time + loginBlockDuration →
        x.verified = none ∧ x.result = ⟨none, some (e.time + loginBlockDuration)⟩ := by
  obtain ⟨hrun, hsound, -⟩ := h.throttle
  obtain ⟨stop, hanswer⟩ := e.imposesBlock_iff.mp himposes
  have hstop := LoginEvent.blockedUntil_of_imposed hanswer
  have htrace : evs.map (fun e => (e.time, e.answer)) =
      pre.map (fun e => (e.time, e.answer)) ++
        (e.time, .imposed stop) :: post.map fun e => (e.time, e.answer) := by
    rw [he, List.map_append, List.map_cons, hanswer]
  obtain ⟨rfl, hpost, -⟩ := hrun.blocked htrace
  refine ⟨hstop, fun x hx hlt => (hsound x (by simp [he, hx])).of_blocked ?_⟩
  exact hpost _ (List.mem_map_of_mem hx) hlt

/-- Nothing but a block that lasts answers an attempt unchecked. -/
theorem LoginRun.imposed (h : LoginRun tracked evs s) {pre post : List LoginEvent}
    {x : LoginEvent} (he : evs = pre ++ x :: post) (hx : x.verified = none) :
    ∃ e ∈ pre, e.imposesBlock = true ∧ x.time < e.time + loginBlockDuration ∧
      x.result = ⟨none, some (e.time + loginBlockDuration)⟩ := by
  obtain ⟨hrun, hsound, -⟩ := h.throttle
  obtain ⟨stop, hstop⟩ := Option.isSome_iff_exists.mp
    ((hsound x (by simp [he])).blocked hx)
  have hanswer : x.answer = .blocked stop := by simp [LoginEvent.answer, hx, hstop]
  have htrace : evs.map (fun e => (e.time, e.answer)) =
      pre.map (fun e => (e.time, e.answer)) ++
        (x.time, .blocked stop) :: post.map fun e => (e.time, e.answer) := by
    rw [he, List.map_append, List.map_cons, hanswer]
  obtain ⟨hlt, y, hy, himposed⟩ := hrun.imposed_of_blocked htrace
  obtain ⟨e, hmem, rfl⟩ := List.mem_map.mp hy
  have himposes : e.imposesBlock = true := e.imposesBlock_iff.mpr ⟨stop, himposed⟩
  obtain ⟨before, after, rfl⟩ := List.append_of_mem hmem
  obtain ⟨hend, -⟩ := h.blocked (by rw [he, List.append_assoc, List.cons_append]) himposes
  obtain rfl := Option.some.inj ((LoginEvent.blockedUntil_of_imposed himposed).symm.trans hend)
  exact ⟨e, hmem, himposes, hlt, ((hsound x (by simp [he])).of_blocked hanswer).2⟩

/-- Between two successes or blocks, fewer checks than the limit fail. -/
theorem LoginRun.countP_lt (h : LoginRun tracked evs s) {pre mid post : List LoginEvent}
    (he : evs = pre ++ mid ++ post)
    (hmid : ∀ x ∈ mid, ¬x.result.authenticated ∧ ¬x.imposesBlock) :
    mid.countP LoginEvent.wrong < maximumFailedAttempts := by
  obtain ⟨hrun, hsound, -⟩ := h.throttle
  have hcount := hrun.countP_lt (by decide) (by rw [he, List.map_append, List.map_append])
    fun y hy => by
      obtain ⟨x, hx, rfl⟩ := List.mem_map.mp hy
      obtain ⟨haccepted, himposed⟩ := hmid x hx
      rw [(hsound x (by simp [he, hx])).authenticated_iff] at haccepted
      rw [LoginEvent.imposesBlock_iff] at himposed
      cases hanswer : x.answer with
      | accepted => exact absurd hanswer haccepted
      | imposed stop => exact absurd ⟨stop, hanswer⟩ himposed
      | blocked stop => rfl
      | refused => rfl
  rw [List.countP_map] at hcount
  simpa only [Function.comp_def, ← LoginEvent.wrong_eq] using hcount

/-- In a window shorter than a block and without a success, at most the limit fail. -/
theorem LoginRun.countP_window_le (h : LoginRun tracked evs s) {w : ℕ → Bool}
    (hw : ∀ a b c, a ≤ b → b ≤ c → w a = true → w c = true → w b = true)
    (hshort : ∀ a b, w a = true → w b = true → b < a + loginBlockDuration)
    (hnone : ∀ x ∈ evs, w x.time = true → ¬x.result.authenticated) :
    evs.countP (fun x => w x.time && x.wrong) ≤ maximumFailedAttempts := by
  obtain ⟨hrun, hsound, -⟩ := h.throttle
  have hcount := hrun.countP_window_le (by decide) hw hshort fun y hy hwy => by
    obtain ⟨x, hx, rfl⟩ := List.mem_map.mp hy
    exact fun haccepted => hnone x hx hwy ((hsound x hx).authenticated_iff.mpr haccepted)
  rw [List.countP_map] at hcount
  simpa only [Function.comp_def, ← LoginEvent.wrong_eq] using hcount

/-- **The throttle on logins.**  A block imposed at `t` answers every attempt before `t` plus
15 minutes, with the same end, and no attempt goes unchecked but so; between two successes or
blocks at most 4 checks of a password fail; and at most 5 do in 15 minutes without a success,
whichever end of the window is open. -/
theorem LoginRun.throttled (h : LoginRun tracked evs s) :
    (∀ (pre : List LoginEvent) (e : LoginEvent) (post : List LoginEvent),
      evs = pre ++ e :: post → e.imposesBlock →
        e.result.blockedUntil = some (e.time + minutes 15) ∧
          ∀ x ∈ post, x.time < e.time + minutes 15 →
            x.verified = none ∧ x.result = ⟨none, some (e.time + minutes 15)⟩) ∧
    (∀ (pre : List LoginEvent) (x : LoginEvent) (post : List LoginEvent),
      evs = pre ++ x :: post → x.verified = none →
        ∃ e ∈ pre, e.imposesBlock ∧ x.time < e.time + minutes 15 ∧
          x.result = ⟨none, some (e.time + minutes 15)⟩) ∧
    (∀ pre mid post : List LoginEvent, evs = pre ++ mid ++ post →
      (∀ x ∈ mid, ¬x.result.authenticated ∧ ¬x.imposesBlock) →
        mid.countP LoginEvent.wrong ≤ 4) ∧
    (∀ start : ℕ,
      (∀ x ∈ evs, start ≤ x.time ∧ x.time < start + minutes 15 → ¬x.result.authenticated) →
        evs.countP (fun x => decide (start ≤ x.time ∧ x.time < start + minutes 15) && x.wrong)
          ≤ 5) ∧
    (∀ start : ℕ,
      (∀ x ∈ evs, start < x.time ∧ x.time ≤ start + minutes 15 → ¬x.result.authenticated) →
        evs.countP (fun x => decide (start < x.time ∧ x.time ≤ start + minutes 15) && x.wrong)
          ≤ 5) := by
  refine ⟨fun pre e post he himposes => h.blocked he himposes,
    fun pre x post he hx => h.imposed he hx,
    fun pre mid post he hmid => Nat.le_of_lt_succ (h.countP_lt he hmid),
    fun start hnone => ?_, fun start hnone => ?_⟩
  · refine @LoginRun.countP_window_le _ _ _ _ _ h
      (fun a => decide (start ≤ a ∧ a < start + minutes 15)) (fun a b c hab hbc ha hc => ?_)
      (fun a b ha hb => ?_) fun x hx hwx => hnone x hx (of_decide_eq_true hwx)
    · simp only [decide_eq_true_eq] at ha hc ⊢
      omega
    · simp only [decide_eq_true_eq] at ha hb
      unfold loginBlockDuration
      omega
  · refine @LoginRun.countP_window_le _ _ _ _ _ h
      (fun a => decide (start < a ∧ a ≤ start + minutes 15)) (fun a b c hab hbc ha hc => ?_)
      (fun a b ha hb => ?_) fun x hx hwx => hnone x hx (of_decide_eq_true hwx)
    · simp only [decide_eq_true_eq] at ha hc ⊢
      omega
    · simp only [decide_eq_true_eq] at ha hb
      unfold loginBlockDuration
      omega

/-- Attempts for one username, one after another. -/
def loginSequence (s : Accounts) (username : List Char) :
    List (ℕ × List Char) → List LoginEvent × Accounts
  | [] => ([], s)
  | (now, password) :: attempts =>
    let rest := loginSequence (attemptUserLogin s username password now).2 username attempts
    (loginEvent s username password now :: rest.1, rest.2)

/-- Attempts one after another are a run. -/
theorem LoginRun.sequence {username : List Char} {attempts : List (ℕ × List Char)}
    (h : LoginRun (trackedUsername username) evs s)
    (hle : ∀ e ∈ evs, ∀ x ∈ attempts, e.time ≤ x.1)
    (hs : attempts.Pairwise fun x y => x.1 ≤ y.1) :
    LoginRun (trackedUsername username) (evs ++ (loginSequence s username attempts).1)
      (loginSequence s username attempts).2 := by
  induction attempts generalizing evs s with
  | nil => simpa [loginSequence] using h
  | cons x attempts ih =>
    obtain ⟨hx, hs⟩ := List.pairwise_cons.mp hs
    have hrun := h.attempt username x.2 x.1 rfl fun e he => hle e he x List.mem_cons_self
    have hrest := ih hrun (fun e he y hy => ?_) hs
    · simpa [loginSequence] using hrest
    · rcases List.mem_append.mp he with he | he
      · exact hle e he y (List.mem_cons_of_mem _ hy)
      · rw [List.mem_singleton.mp he]
        exact hx y hy

end Runs

end Attempts

/-- A hasher that keeps the passwords as they are. -/
@[reducible]
def PasswordHasher.plain : PasswordHasher where
  hash password _ := password
  verify passwordHash password := passwordHash == password
  dummyHash := []

/-- One administrator, `ana`, whose password is `senha1`. -/
def anaAccounts : Accounts where
  users := Table.empty.add
    ⟨['a', 'n', 'a'], ['a', 'n', 'a'], ['s', 'e', 'n', 'h', 'a', '1'], .admin, true, false⟩
  sessions := Table.empty
  loginAttempts := Table.empty

/-- Five wrong passwords, the right one while the block lasts, and again at its end. -/
def anaAttempts : List (ℕ × List Char) :=
  [(0, ['x']), (1, ['x']), (1, ['x']), (2, ['x']), (7, ['x']),
    (minutes 15 + 6, ['s', 'e', 'n', 'h', 'a', '1']),
    (minutes 15 + 7, ['s', 'e', 'n', 'h', 'a', '1'])]

/-- Wrong attempts for one user, in the spelling of any: the fifth is blocked. -/
theorem LoginRun.throttled_ana :
    letI := Unicode.ascii
    letI := PasswordHasher.plain
    let evs := (loginSequence anaAccounts ['A', 'n', 'a'] anaAttempts).1
    evs.map (fun e => e.answer) =
        [.refused, .refused, .refused, .refused, .imposed (minutes 15 + 7),
          .blocked (minutes 15 + 7), .accepted] ∧
      ∀ start : ℕ,
        (∀ x ∈ evs, start ≤ x.time ∧ x.time < start + minutes 15 → ¬x.result.authenticated) →
          evs.countP (fun x => decide (start ≤ x.time ∧ x.time < start + minutes 15) && x.wrong)
            ≤ 5 := by
  let _ := Unicode.ascii
  let _ := PasswordHasher.plain
  have hstart : LoginRun (trackedUsername ['A', 'n', 'a']) [] anaAccounts :=
    .start anaAccounts (by decide)
  have hrun := hstart.sequence (by simp) (by decide : anaAttempts.Pairwise fun x y => x.1 ≤ y.1)
  exact ⟨by decide, (LoginRun.throttled hrun).2.2.2.1⟩

end PalworldManager
