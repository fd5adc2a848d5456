/-
# Operations on the accounts, one after another

Every operation on users and sessions runs in a transaction of its own.  It returns or raises;
one that raises is rolled back, and one that returns may still be rolled back by what its
caller does next.  A run is a sequence of operations, by anyone and in any order, at
non-decreasing moments, with their outcomes.

What an operation that returns has done is said once (`performOperation_eq_ok`); what holds of
users and of sessions over a run is read off that.

At least one active administrator remains over every run (`AccountRun.activeAdmin`).  What
carries the proof is `perform_users`: an operation adds a user, or changes one, and where it
takes an active administrator out of the count, the count was above one.
-/

import PalworldManager.Users.Service

namespace PalworldManager

open Effects Text

/-- The operations: those of `create_user` and its siblings, by an actor; the two of the command
line; and those on sessions. -/
inductive AccountOperation where
  | createAdministrator (username password : List Char) (salt : ℕ)
  | createUser (username temporaryPassword : List Char) (role : UserRole) (actor salt : ℕ)
  | changeRole (target : ℕ) (role : UserRole) (actor : ℕ)
  | setActive (target : ℕ) (active : Bool) (actor : ℕ)
  | resetPassword (target : ℕ) (temporaryPassword : List Char) (actor salt : ℕ)
  | updateOwnPassword (userId : ℕ) (newPassword : List Char) (salt : ℕ)
  | resetAdministratorPassword (username password : List Char) (salt : ℕ)
  | login (username password : List Char)
  | issue (userId : ℕ) (sessionToken csrfToken : List Char)
  | resolve (sessionToken : Option (List Char))
  | revoke (sessionId : ℕ)
  | revokeUser (userId : ℕ)
  deriving DecidableEq, Repr

/-- What an operation returns. -/
inductive AccountResult where
  | user (userId : ℕ)
  | login (result : LoginResult)
  | issued (session : IssuedSession)
  | resolved (principal : Option SessionPrincipal)
  | done
  deriving DecidableEq, Repr

section Runs

variable [Unicode] [PasswordHasher] [TokenHasher]

/-- An operation at a moment. -/
def performOperation (s : Accounts) (now : ℕ) :
    AccountOperation → Except AuthError (AccountResult × Accounts)
  | .createAdministrator username password salt =>
    (createAdministrator s username password salt).map fun r => (.user r.1, r.2)
  | .createUser username temporaryPassword role _ salt =>
    (createUser s username temporaryPassword role salt).map fun r => (.user r.1, r.2)
  | .changeRole target role actor =>
    (changeUserRole s target role actor now).map fun s' => (.user target, s')
  | .setActive target active actor =>
    (setUserActive s target active actor now).map fun s' => (.user target, s')
  | .resetPassword target temporaryPassword actor salt =>
    (resetUserPassword s target temporaryPassword actor salt now).map fun s' =>
      (.user target, s')
  | .updateOwnPassword userId newPassword salt =>
    (updateOwnPassword s userId newPassword salt now).map fun s' => (.user userId, s')
  | .resetAdministratorPassword username password salt =>
    (resetAdministratorPassword s username password salt now).map fun r => (.user r.1, r.2)
  | .login username password =>
    let r := attemptUserLogin s username password now
    .ok (.login r.1, r.2)
  | .issue userId sessionToken csrfToken =>
    (issueSession s userId sessionToken csrfToken now).map fun r => (.issued r.1, r.2)
  | .resolve sessionToken =>
    let r := resolveSession s sessionToken now
    .ok (.resolved r.1, r.2)
  | .revoke sessionId => .ok (.done, revokeSession s sessionId now)
  | .revokeUser userId => .ok (.done, revokeUserSessions s userId now)

/-- The user whose role, status or password an operation changes when it returns; a role or
status that the user has already is not changed. -/
def AccountOperation.changes (s : Accounts) (op : AccountOperation) (result : AccountResult) :
    Option ℕ :=
  match op, result with
  | .changeRole target role _, _ =>
    if (s.users.get target).any fun u => u.role ≠ role then some target else none
  | .setActive target active _, _ =>
    if (s.users.get target).any fun u => u.isActive ≠ active then some target else none
  | .resetPassword target .., _ => some target
  | .updateOwnPassword userId .., _ => some userId
  | .resetAdministratorPassword .., .user userId => some userId
  | _, _ => none

/-- What is seen of an operation: the moment, the operation, what it returned or raised, the
user it changed, and whether it was committed. -/
structure AccountEvent where
  time : ℕ
  operation : AccountOperation
  outcome : Except AuthError AccountResult
  changed : Option ℕ
  committed : Bool
  deriving DecidableEq

/-- One transaction: the operation is performed, and what it did is committed or rolled back. -/
inductive AccountStep (s : Accounts) : AccountEvent → Accounts → Prop
  | commit {now op result s'} : performOperation s now op = .ok (result, s') →
      AccountStep s ⟨now, op, .ok result, op.changes s result, true⟩ s'
  | rollback {now op result s'} : performOperation s now op = .ok (result, s') →
      AccountStep s ⟨now, op, .ok result, none, false⟩ s
  | refuse {now op e} : performOperation s now op = .error e →
      AccountStep s ⟨now, op, .error e, none, false⟩ s

/-- The runs from a state. -/
inductive AccountRun (s₀ : Accounts) : List AccountEvent → Accounts → Prop
  | start : AccountRun s₀ [] s₀
  | step {evs s e s'} : AccountRun s₀ evs s → AccountStep s e s' →
      (∀ x ∈ evs, x.time ≤ e.time) → AccountRun s₀ (evs ++ [e]) s'

/-! ### What an operation does -/

/-- The operations that look for a session, or for those of a user. -/
def AccountOperation.isOnSessions : AccountOperation → Bool
  | .resolve _ => true
  | .revoke _ => true
  | .revokeUser _ => true
  | _ => false

/-- What an operation that returns has done: one of seven things, of which only the third
changes a user, and then revokes the sessions of that user. -/
inductive Performed (s : Accounts) (now : ℕ) (op : AccountOperation) (result : AccountResult) :
    Accounts → Prop
  | kept {s'} : s'.users = s.users → s'.sessions = s.sessions → op.isOnSessions = false →
      op.changes s result = none → Performed s now op result s'
  | added (u : User) : op.isOnSessions = false → op.changes s result = none →
      Performed s now op result { s with users := s.users.add u }
  | changed {id : ℕ} {u : User} (f : User → User) : s.users.get id = some u →
      (u.role = .admin → u.isActive = true →
        ((f u).role = .admin ∧ (f u).isActive = true) ∨ 1 < s.activeAdmins) →
      op.isOnSessions = false → (∀ userId ∈ op.changes s result, userId = id) →
      Performed s now op result (revokeUserSessions (s.modifyUser id f) id now)
  | issued (r : SessionRecord) : op.isOnSessions = false → op.changes s result = none →
      Performed s now op result { s with sessions := s.sessions.add r }
  | resolved (sessionToken : Option (List Char)) : op = .resolve sessionToken →
      result = .resolved (resolveSession s sessionToken now).1 →
      Performed s now op result (resolveSession s sessionToken now).2
  | revoked (sessionId : ℕ) : op = .revoke sessionId → result = .done →
      Performed s now op result (revokeSession s sessionId now)
  | revokedUser (userId : ℕ) : op = .revokeUser userId → result = .done →
      Performed s now op result (revokeUserSessions s userId now)

section Performed

variable {s s' : Accounts} {now id : ℕ} {op : AccountOperation} {result : AccountResult}

omit [Unicode] [PasswordHasher] in
/-- A new password keeps the role and the status. -/
theorem performed_setPassword {u : User} {passwordHash : List Char} {required : Bool}
    (hget : s.users.get id = some u) (hop : op.isOnSessions = false)
    (hchanges : op.changes s result = some id) :
    Performed s now op result (s.setPassword id passwordHash required now) := by
  refine .changed _ hget (fun hadmin hactive => .inl ⟨hadmin, hactive⟩) hop fun userId h => ?_
  rw [hchanges] at h
  exact (Option.some.inj h).symm

omit [Unicode] [PasswordHasher] in
/-- Another role is given where another administrator is active. -/
theorem performed_changeRole {role : UserRole} {actor : ℕ}
    (h : changeUserRole s id role actor now = .ok s') :
    Performed s now (.changeRole id role actor) result s' := by
  obtain ⟨u, -, hget, ⟨hsame, rfl⟩ | ⟨hother, hguard, rfl⟩⟩ := changeUserRole_eq_ok h
  · exact .kept rfl rfl rfl (by simp [AccountOperation.changes, hget, hsame])
  · refine .changed _ hget (fun hadmin hactive => .inr (hguard hadmin hactive)) rfl ?_
    simp [AccountOperation.changes, hget, hother]

omit [Unicode] [PasswordHasher] in
/-- Another status is given where another administrator is active. -/
theorem performed_setActive {active : Bool} {actor : ℕ}
    (h : setUserActive s id active actor now = .ok s') :
    Performed s now (.setActive id active actor) result s' := by
  obtain ⟨u, -, hget, ⟨hsame, rfl⟩ | ⟨hother, hguard, rfl⟩⟩ := setUserActive_eq_ok h
  · exact .kept rfl rfl rfl (by simp [AccountOperation.changes, hget, hsame])
  · refine .changed _ hget (fun hadmin hactive => .inr (hguard hadmin hactive)) rfl ?_
    simp [AccountOperation.changes, hget, hother]

/-- **What an operation does**, one by one. -/
theorem performOperation_eq_ok (h : performOperation s now op = .ok (result, s')) :
    Performed s now op result s' := by
  cases op with
  | createAdministrator username password salt =>
    obtain ⟨⟨id, s''⟩, hc, he⟩ := except_map_eq_ok.mp h
    obtain ⟨-, rfl⟩ := Prod.mk.inj he
    obtain ⟨user, -, -, -, rfl⟩ := createAdministrator_eq_ok hc
    exact .added user rfl rfl
  | createUser username temporaryPassword role actor salt =>
    obtain ⟨⟨id, s''⟩, hc, he⟩ := except_map_eq_ok.mp h
    obtain ⟨-, rfl⟩ := Prod.mk.inj he
    obtain ⟨user, -, -, -, rfl⟩ := createUser_eq_ok hc
    exact .added user rfl rfl
  | changeRole target role actor =>
    obtain ⟨s'', hc, he⟩ := except_map_eq_ok.mp h
    obtain ⟨-, rfl⟩ := Prod.mk.inj he
    exact performed_changeRole hc
  | setActive target active actor =>
    obtain ⟨s'', hc, he⟩ := except_map_eq_ok.mp h
    obtain ⟨-, rfl⟩ := Prod.mk.inj he
    exact performed_setActive hc
  | resetPassword target temporaryPassword actor salt =>
    obtain ⟨s'', hc, he⟩ := except_map_eq_ok.mp h
    obtain ⟨-, rfl⟩ := Prod.mk.inj he
    obtain ⟨u, passwordHash, -, hget, rfl⟩ := resetUserPassword_eq_ok hc
    exact performed_setPassword hget rfl rfl
  | updateOwnPassword userId newPassword salt =>
    obtain ⟨s'', hc, he⟩ := except_map_eq_ok.mp h
    obtain ⟨-, rfl⟩ := Prod.mk.inj he
    obtain ⟨u, passwordHash, hget, rfl⟩ := updateOwnPassword_eq_ok hc
    exact performed_setPassword hget rfl rfl
  | resetAdministratorPassword username password salt =>
    obtain ⟨⟨id, s''⟩, hc, he⟩ := except_map_eq_ok.mp h
    obtain ⟨rfl, rfl⟩ := Prod.mk.inj he
    obtain ⟨u, passwordHash, hget, rfl⟩ := resetAdministratorPassword_eq_ok hc
    exact performed_setPassword hget rfl rfl
  | login username password =>
    obtain ⟨-, rfl⟩ := Prod.mk.inj (Except.ok.inj h)
    obtain ⟨a, hs, -⟩ := attemptUserLogin_cases s username password now
    rw [hs]
    exact .kept rfl rfl rfl rfl
  | issue userId sessionToken csrfToken =>
    obtain ⟨⟨session, s''⟩, hc, he⟩ := except_map_eq_ok.mp h
    obtain ⟨-, rfl⟩ := Prod.mk.inj he
    obtain ⟨-, -, -, rfl⟩ := issueSession_eq_ok hc
    exact .issued _ rfl rfl
  | resolve sessionToken =>
    obtain ⟨rfl, rfl⟩ := Prod.mk.inj (Except.ok.inj h)
    exact .resolved sessionToken rfl rfl
  | revoke sessionId =>
    obtain ⟨rfl, rfl⟩ := Prod.mk.inj (Except.ok.inj h)
    exact .revoked sessionId rfl rfl
  | revokeUser userId =>
    obtain ⟨rfl, rfl⟩ := Prod.mk.inj (Except.ok.inj h)
    exact .revokedUser userId rfl rfl

end Performed

/-! ### The users -/

/-- The users are the same, or one is added, or one is changed. -/
inductive UsersMoved (s : Accounts) : Table User → Prop
  | same : UsersMoved s s.users
  | added (u : User) : UsersMoved s (s.users.add u)
  | changed {id : ℕ} {u : User} (f : User → User) : s.users.get id = some u →
      (u.role = .admin → u.isActive = true →
        ((f u).role = .admin ∧ (f u).isActive = true) ∨ 1 < s.activeAdmins) →
      UsersMoved s (s.users.modify id f)

omit [Unicode] [PasswordHasher] in
/-- A resolution changes no user. -/
theorem users_resolveSession (s : Accounts) (sessionToken : Option (List Char)) (now : ℕ) :
    (resolveSession s sessionToken now).2.users = s.users := by
  obtain ⟨he, -⟩ | ⟨_, _, _, _, -, -, -, ⟨-, he⟩ | ⟨-, he⟩⟩ :=
    resolveSession_cases s sessionToken now <;> rw [he]

/-- **What an operation does to the users.** -/
theorem perform_users {s s' : Accounts} {now : ℕ} {op : AccountOperation}
    {result : AccountResult} (h : performOperation s now op = .ok (result, s')) :
    UsersMoved s s'.users := by
  cases performOperation_eq_ok h with
  | kept husers =>
    rw [husers]
    exact .same
  | added u => exact .added u
  | changed f hget hguard => exact .changed f hget hguard
  | issued => exact .same
  | resolved sessionToken =>
    rw [users_resolveSession]
    exact .same
  | revoked => exact .same
  | revokedUser => exact .same

omit [Unicode] [PasswordHasher] [TokenHasher] in
/-- Where more than one row counts, one counts that has not a given identifier. -/
theorem exists_other_of_one_lt {α : Type} {t : Table α} {p : α → Bool} (id : ℕ)
    (h : 1 < t.rows.countP fun r => p r.2) : ∃ k a, k ≠ id ∧ t.get k = some a ∧ p a = true := by
  by_contra hnone
  have hid : ∀ k ∈ (t.rows.filter fun r => p r.2).map Prod.fst, k = id := by
    intro k hk
    obtain ⟨⟨k', a⟩, hr, rfl⟩ := List.mem_map.mp hk
    obtain ⟨hmem, hp⟩ := List.mem_filter.mp hr
    by_contra hne
    exact hnone ⟨k', a, hne, Table.mem_rows_iff.mp hmem, hp⟩
  have hnodup : ((t.rows.filter fun r => p r.2).map Prod.fst).Nodup :=
    t.nodup.sublist (List.filter_sublist.map _)
  have hsubset : (t.rows.filter fun r => p r.2).map Prod.fst ⊆ [id] := fun k hk =>
    List.mem_singleton.mpr (hid k hk)
  have hle := (List.subperm_of_subset hnodup hsubset).length_le
  rw [List.length_map, ← List.countP_eq_length_filter, List.length_singleton] at hle
  omega

/-- Some active user is an administrator. -/
def Accounts.HasActiveAdmin (s : Accounts) : Prop :=
  ∃ id u, s.users.get id = some u ∧ u.role = .admin ∧ u.isActive = true

omit [Unicode] [PasswordHasher] [TokenHasher] in
/-- An operation leaves an active administrator. -/
theorem UsersMoved.hasActiveAdmin {s s' : Accounts} (h : UsersMoved s s'.users)
    (hadmin : s.HasActiveAdmin) : s'.HasActiveAdmin := by
  obtain ⟨id, u, hget, hrole, hactive⟩ := hadmin
  unfold Accounts.HasActiveAdmin
  generalize s'.users = users at h
  cases h with
  | same => exact ⟨id, u, hget, hrole, hactive⟩
  | added v => exact ⟨id, u, Table.get_add_of_some hget, hrole, hactive⟩
  | @changed target v f htarget hkept =>
    by_cases hid : id = target
    · subst hid
      obtain rfl : u = v := Option.some.inj (hget.symm.trans htarget)
      rcases hkept hrole hactive with ⟨hrole', hactive'⟩ | hlt
      · refine ⟨id, f u, ?_, hrole', hactive'⟩
        rw [Table.get_modify_self, hget, Option.map_some]
      · obtain ⟨k, w, hne, hw, hp⟩ := @exists_other_of_one_lt _ s.users
          (fun u => u.role == .admin && u.isActive) id hlt
        obtain ⟨hrole', hactive'⟩ : w.role = .admin ∧ w.isActive = true := by simpa using hp
        exact ⟨k, w, by rw [Table.get_modify_ne _ hne, hw], hrole', hactive'⟩
    · exact ⟨id, u, by rw [Table.get_modify_ne _ hid, hget], hrole, hactive⟩

/-- What a transaction leaves behind, where it is not committed, is what it found. -/
theorem AccountStep.cases {s s' : Accounts} {e : AccountEvent} (h : AccountStep s e s') :
    s' = s ∨ ∃ result, performOperation s e.time e.operation = .ok (result, s') ∧
      e.outcome = .ok result ∧ e.changed = e.operation.changes s result ∧
      e.committed = true := by
  cases h with
  | commit hp => exact .inr ⟨_, hp, rfl, rfl, rfl⟩
  | rollback hp => exact .inl rfl
  | refuse hp => exact .inl rfl

/-- One transaction that is committed where the operation returns. -/
def commitOperation (s : Accounts) (now : ℕ) (op : AccountOperation) : AccountEvent × Accounts :=
  match performOperation s now op with
  | .ok (result, s') => (⟨now, op, .ok result, op.changes s result, true⟩, s')
  | .error e => (⟨now, op, .error e, none, false⟩, s)

/-- What is committed is a step. -/
theorem accountStep_commit (s : Accounts) (now : ℕ) (op : AccountOperation) :
    AccountStep s (commitOperation s now op).1 (commitOperation s now op).2 ∧
      (commitOperation s now op).1.time = now := by
  unfold commitOperation
  cases h : performOperation s now op with
  | error e => exact ⟨.refuse h, rfl⟩
  | ok r => exact ⟨.commit h, rfl⟩

/-- Operations one after another, each committed where it returns. -/
def commitOperations (s : Accounts) : List (ℕ × AccountOperation) → List AccountEvent × Accounts
  | [] => ([], s)
  | (now, op) :: ops =>
    let r := commitOperation s now op
    let rest := commitOperations r.2 ops
    (r.1 :: rest.1, rest.2)

/-- Operations one after another are a run. -/
theorem AccountRun.commits {s₀ s : Accounts} {evs : List AccountEvent}
    {ops : List (ℕ × AccountOperation)} (h : AccountRun s₀ evs s)
    (hle : ∀ e ∈ evs, ∀ x ∈ ops, e.time ≤ x.1) (hs : ops.Pairwise fun x y => x.1 ≤ y.1) :
    AccountRun s₀ (evs ++ (commitOperations s ops).1) (commitOperations s ops).2 := by
  induction ops generalizing evs s with
  | nil => simpa [commitOperations] using h
  | cons x ops ih =>
    obtain ⟨hx, hs⟩ := List.pairwise_cons.mp hs
    obtain ⟨hstep, htime⟩ := accountStep_commit s x.1 x.2
    have hrun := h.step hstep fun e he => htime.symm ▸ hle e he x List.mem_cons_self
    have hrest := ih hrun (fun e he y hy => ?_) hs
    · simpa [commitOperations] using hrest
    · rcases List.mem_append.mp he with he | he
      · exact hle e he y (List.mem_cons_of_mem _ hy)
      · rw [List.mem_singleton.mp he, htime]
        exact hx y hy

/-- **At least one active administrator always remains**, and an operation that is refused
leaves every user as it was. -/
theorem AccountRun.activeAdmin {s₀ s : Accounts} {evs : List AccountEvent}
    (h : AccountRun s₀ evs s) (h₀ : s₀.HasActiveAdmin) :
    s.HasActiveAdmin ∧
      ∀ e s' error, AccountStep s e s' → e.outcome = .error error → s'.users = s.users := by
  constructor
  · induction h with
    | start => exact h₀
    | step _ hstep _ ih =>
      rcases hstep.cases with rfl | ⟨result, hp, -⟩
      · exact ih
      · exact (perform_users hp).hasActiveAdmin ih
  · intro e s' error hstep herror
    rcases hstep.cases with rfl | ⟨result, -, hok, -⟩
    · rfl
    · rw [hok] at herror
      cases herror

end Runs

/-- A token is its own hash. -/
@[reducible]
def TokenHasher.plain : TokenHasher where
  hashToken token := token

/-- Two active administrators, 1 and 2. -/
def twoAdministrators : Accounts where
  users := (Table.empty.add ⟨['a'], ['a'], ['x'], .admin, true, false⟩).add
    ⟨['b'], ['b'], ['y'], .admin, true, false⟩
  sessions := Table.empty
  loginAttempts := Table.empty

/-- Each demotes the other: the second is refused, although the first administrator's role is
what was asked about and the actor has lost its own. -/
theorem AccountRun.activeAdmin_mutual :
    letI := Unicode.ascii
    letI := PasswordHasher.plain
    letI := TokenHasher.plain
    let run := commitOperations twoAdministrators
      [(0, .changeRole 2 .user 1), (1, .changeRole 1 .user 2)]
    (run.1.map fun e => e.outcome.toOption) = [some (.user 2), none] ∧ run.2.HasActiveAdmin := by
  let _ := Unicode.ascii
  let _ := PasswordHasher.plain
  let _ := TokenHasher.plain
  have hstart : AccountRun twoAdministrators [] twoAdministrators := .start
  have hrun := hstart.commits (by simp) (by decide :
    [((0 : ℕ), AccountOperation.changeRole 2 .user 1), (1, .changeRole 1 .user 2)].Pairwise
      fun x y => x.1 ≤ y.1)
  exact ⟨by decide, (AccountRun.activeAdmin hrun ⟨1, _, rfl, rfl, rfl⟩).1⟩

end PalworldManager
