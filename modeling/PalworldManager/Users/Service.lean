/-
# The management of the users

`users/service.py` and `auth/service.py`.  Each function runs in a session of its own that takes
the immediate transaction before it reads, and that is rolled back when the function raises:
a function is one step here, and one that raises leaves nothing behind.
-/

import PalworldManager.Auth.Sessions

namespace PalworldManager

open Effects Text

/-- Update the row of a user. -/
def Accounts.modifyUser (s : Accounts) (id : ℕ) (f : User → User) : Accounts :=
  { s with users := s.users.modify id f }

/-- `_managed_user`. -/
def managedUser (s : Accounts) (targetUserId actorUserId : ℕ) : Except AuthError User :=
  if targetUserId = actorUserId then .error .selfManagement
  else
    match s.users.get targetUserId with
    | none => .error .userNotFound
    | some user => .ok user

/-- The number of the active administrators. -/
def Accounts.activeAdmins (s : Accounts) : ℕ :=
  s.users.rows.countP fun r => r.2.role == .admin && r.2.isActive

/-- `_require_another_active_administrator`. -/
def requireAnotherActiveAdministrator (s : Accounts) (user : User) : Except AuthError Unit :=
  if user.isActive ∧ s.activeAdmins ≤ 1 then .error .lastActiveAdministrator else .ok ()

/-- `if required: _require_another_active_administrator(...)`. -/
def requireAnotherWhere (required : Prop) [Decidable required] (s : Accounts) (user : User) :
    Except AuthError Unit :=
  if required then requireAnotherActiveAdministrator s user else .ok ()

section Creation

variable [Unicode] [PasswordHasher]

/-- Insert a user, within the unique columns of `users`. -/
def Accounts.insertUser (s : Accounts) (user : User) : Except AuthError (ℕ × Accounts) :=
  if s.users.rows.any fun r =>
      r.2.username == user.username || r.2.usernameKey == user.usernameKey then
    .error .integrityError
  else .ok (s.users.nextId, { s with users := s.users.add user })

/-- `create_administrator`. -/
def createAdministrator (s : Accounts) (username password : List Char) (salt : ℕ) :
    Except AuthError (ℕ × Accounts) := do
  refuseIf (s.users.rows ≠ []) .administratorAlreadyExists
  let normalized ← normalizeUsername username
  let passwordHash ← hashPassword password salt
  s.insertUser
    { username := normalized
      usernameKey := usernameKey normalized
      passwordHash := passwordHash
      role := .admin
      isActive := true
      passwordChangeRequired := false }

/-- `create_user`. -/
def createUser (s : Accounts) (username temporaryPassword : List Char) (role : UserRole)
    (salt : ℕ) : Except AuthError (ℕ × Accounts) := do
  let normalized ← normalizeUsername username
  let passwordHash ← hashPassword temporaryPassword salt
  refuseIf (firstRow s.users fun u => u.usernameKey == usernameKey normalized).isSome
    .usernameAlreadyExists
  let inserted := s.insertUser
    { username := normalized
      usernameKey := usernameKey normalized
      passwordHash := passwordHash
      role := role
      isActive := true
      passwordChangeRequired := true }
  match inserted with
  | .ok r => pure r
  | .error _ => throw .usernameAlreadyExists

end Creation

/-- `change_user_role`. -/
def changeUserRole (s : Accounts) (targetUserId : ℕ) (role : UserRole) (actorUserId now : ℕ) :
    Except AuthError Accounts := do
  let user ← managedUser s targetUserId actorUserId
  if user.role = role then pure s
  else
    requireAnotherWhere (user.role = .admin ∧ role ≠ .admin) s user
    let s := s.modifyUser targetUserId fun u => { u with role := role }
    pure (revokeUserSessions s targetUserId now)

/-- `set_user_active`. -/
def setUserActive (s : Accounts) (targetUserId : ℕ) (active : Bool) (actorUserId now : ℕ) :
    Except AuthError Accounts := do
  let user ← managedUser s targetUserId actorUserId
  if user.isActive = active then pure s
  else
    requireAnotherWhere (active = false ∧ user.role = .admin) s user
    let s := s.modifyUser targetUserId fun u => { u with isActive := active }
    pure (revokeUserSessions s targetUserId now)

section Passwords

variable [PasswordHasher]

/-- A new password, and whether it has to be changed at the next login. -/
def Accounts.setPassword (s : Accounts) (userId : ℕ) (passwordHash : List Char)
    (changeRequired : Bool) (now : ℕ) : Accounts :=
  revokeUserSessions
    (s.modifyUser userId fun u =>
      { u with passwordHash := passwordHash, passwordChangeRequired := changeRequired })
    userId now

/-- `reset_user_password`. -/
def resetUserPassword (s : Accounts) (targetUserId : ℕ) (temporaryPassword : List Char)
    (actorUserId salt now : ℕ) : Except AuthError Accounts := do
  let passwordHash ← hashPassword temporaryPassword salt
  let _ ← managedUser s targetUserId actorUserId
  pure (s.setPassword targetUserId passwordHash true now)

/-- `update_own_password`. -/
def updateOwnPassword (s : Accounts) (userId : ℕ) (newPassword : List Char) (salt now : ℕ) :
    Except AuthError Accounts :=
  match s.users.get userId with
  | none => .error .userNotFound
  | some _ => do
    let passwordHash ← hashPassword newPassword salt
    pure (s.setPassword userId passwordHash false now)

/-- `reset_administrator_password`: the administrator's identifier comes with it. -/
def resetAdministratorPassword [Unicode] (s : Accounts) (username password : List Char)
    (salt now : ℕ) : Except AuthError (ℕ × Accounts) := do
  let normalizedUsername ← normalizeUsername username
  let administrator := firstRow s.users fun u =>
    u.usernameKey == usernameKey normalizedUsername && u.role == .admin
  match administrator with
  | none => throw .administratorNotFound
  | some (id, _) => do
    let passwordHash ← hashPassword password salt
    pure (id, s.setPassword id passwordHash false now)

end Passwords

/-! ### What a function that returns has done -/

/-- A user may be managed by another, if there is such a user. -/
theorem managedUser_eq_ok {s : Accounts} {target actor : ℕ} {u : User} :
    managedUser s target actor = .ok u ↔ target ≠ actor ∧ s.users.get target = some u := by
  unfold managedUser
  by_cases h : target = actor
  · simp [h]
  · cases hu : s.users.get target <;> simp [h]

/-- The administrator that is taken out of the count is not the only active one. -/
theorem requireAnotherActiveAdministrator_eq_ok {s : Accounts} {u : User} :
    requireAnotherActiveAdministrator s u = .ok () ↔ (u.isActive = true → 1 < s.activeAdmins) := by
  unfold requireAnotherActiveAdministrator
  by_cases h : u.isActive = true ∧ s.activeAdmins ≤ 1
  · rw [if_pos h]
    exact ⟨nofun, fun hlt => absurd (hlt h.1) (Nat.not_lt.mpr h.2)⟩
  · rw [if_neg h]
    exact ⟨fun _ hactive => Nat.lt_of_not_le fun hle => h ⟨hactive, hle⟩, fun _ => rfl⟩

section Creation

variable [Unicode] [PasswordHasher]

omit [Unicode] [PasswordHasher] in
/-- A user that is inserted is under the next identifier. -/
theorem insertUser_eq_ok {s s' : Accounts} {user : User} {id : ℕ}
    (h : s.insertUser user = .ok (id, s')) :
    id = s.users.nextId ∧ s' = { s with users := s.users.add user } := by
  unfold Accounts.insertUser at h
  split at h
  · cases h
  · obtain ⟨rfl, rfl⟩ := Prod.mk.inj (Except.ok.inj h)
    exact ⟨rfl, rfl⟩

/-- An administrator that is created is active. -/
theorem createAdministrator_eq_ok {s s' : Accounts} {username password : List Char}
    {salt id : ℕ} (h : createAdministrator s username password salt = .ok (id, s')) :
    ∃ user : User, user.role = .admin ∧ user.isActive = true ∧ id = s.users.nextId ∧
      s' = { s with users := s.users.add user } := by
  unfold createAdministrator at h
  obtain ⟨_, -, h⟩ := except_bind_eq_ok.mp h
  obtain ⟨normalized, -, h⟩ := except_bind_eq_ok.mp h
  obtain ⟨passwordHash, -, h⟩ := except_bind_eq_ok.mp h
  obtain ⟨hid, hs⟩ := insertUser_eq_ok h
  exact ⟨_, rfl, rfl, hid, hs⟩

/-- A user that is created is active, and has the role that was asked for. -/
theorem createUser_eq_ok {s s' : Accounts} {username password : List Char} {role : UserRole}
    {salt id : ℕ} (h : createUser s username password role salt = .ok (id, s')) :
    ∃ user : User, user.role = role ∧ user.isActive = true ∧ id = s.users.nextId ∧
      s' = { s with users := s.users.add user } := by
  unfold createUser at h
  obtain ⟨normalized, -, h⟩ := except_bind_eq_ok.mp h
  obtain ⟨passwordHash, -, h⟩ := except_bind_eq_ok.mp h
  obtain ⟨_, -, h⟩ := except_bind_eq_ok.mp h
  dsimp only at h
  split at h
  · rename_i r hr
    cases h
    obtain ⟨hid, hs⟩ := insertUser_eq_ok hr
    exact ⟨_, rfl, rfl, hid, hs⟩
  · cases h

end Creation

/-- **A role is changed** by another, and not the last administrator's. -/
theorem changeUserRole_eq_ok {s s' : Accounts} {target : ℕ} {role : UserRole} {actor now : ℕ}
    (h : changeUserRole s target role actor now = .ok s') :
    ∃ u, target ≠ actor ∧ s.users.get target = some u ∧
      ((u.role = role ∧ s' = s) ∨
        (u.role ≠ role ∧ (u.role = .admin → u.isActive = true → 1 < s.activeAdmins) ∧
          s' = revokeUserSessions (s.modifyUser target fun u => { u with role := role })
            target now)) := by
  unfold changeUserRole at h
  obtain ⟨u, hu, h⟩ := except_bind_eq_ok.mp h
  obtain ⟨hne, hget⟩ := managedUser_eq_ok.mp hu
  refine ⟨u, hne, hget, ?_⟩
  by_cases hrole : u.role = role
  · rw [if_pos hrole] at h
    exact .inl ⟨hrole, (Except.ok.inj h).symm⟩
  · rw [if_neg hrole] at h
    obtain ⟨_, hother, h⟩ := except_bind_eq_ok.mp h
    refine .inr ⟨hrole, fun hadmin => ?_, (Except.ok.inj h).symm⟩
    rw [requireAnotherWhere, if_pos ⟨hadmin, fun hr => hrole (hadmin.trans hr.symm)⟩] at hother
    exact requireAnotherActiveAdministrator_eq_ok.mp hother

/-- **A status is changed** by another, and not the last administrator's. -/
theorem setUserActive_eq_ok {s s' : Accounts} {target : ℕ} {active : Bool} {actor now : ℕ}
    (h : setUserActive s target active actor now = .ok s') :
    ∃ u, target ≠ actor ∧ s.users.get target = some u ∧
      ((u.isActive = active ∧ s' = s) ∨
        (u.isActive ≠ active ∧ (u.role = .admin → u.isActive = true → 1 < s.activeAdmins) ∧
          s' = revokeUserSessions (s.modifyUser target fun u => { u with isActive := active })
            target now)) := by
  unfold setUserActive at h
  obtain ⟨u, hu, h⟩ := except_bind_eq_ok.mp h
  obtain ⟨hne, hget⟩ := managedUser_eq_ok.mp hu
  refine ⟨u, hne, hget, ?_⟩
  by_cases hactive : u.isActive = active
  · rw [if_pos hactive] at h
    exact .inl ⟨hactive, (Except.ok.inj h).symm⟩
  · rw [if_neg hactive] at h
    obtain ⟨_, hother, h⟩ := except_bind_eq_ok.mp h
    refine .inr ⟨hactive, fun hadmin hu => ?_, (Except.ok.inj h).symm⟩
    have hfalse : active = false := by
      cases active
      · rfl
      · exact absurd hu hactive
    rw [requireAnotherWhere, if_pos ⟨hfalse, hadmin⟩] at hother
    exact requireAnotherActiveAdministrator_eq_ok.mp hother hu

section Passwords

variable [PasswordHasher]

/-- A password is reset by another, and must be changed. -/
theorem resetUserPassword_eq_ok {s s' : Accounts} {target : ℕ} {password : List Char}
    {actor salt now : ℕ} (h : resetUserPassword s target password actor salt now = .ok s') :
    ∃ u passwordHash, target ≠ actor ∧ s.users.get target = some u ∧
      s' = s.setPassword target passwordHash true now := by
  unfold resetUserPassword at h
  obtain ⟨passwordHash, -, h⟩ := except_bind_eq_ok.mp h
  obtain ⟨u, hu, h⟩ := except_bind_eq_ok.mp h
  obtain ⟨hne, hget⟩ := managedUser_eq_ok.mp hu
  exact ⟨u, passwordHash, hne, hget, (Except.ok.inj h).symm⟩

/-- A user changes the own password. -/
theorem updateOwnPassword_eq_ok {s s' : Accounts} {id : ℕ} {password : List Char}
    {salt now : ℕ} (h : updateOwnPassword s id password salt now = .ok s') :
    ∃ u passwordHash, s.users.get id = some u ∧
      s' = s.setPassword id passwordHash false now := by
  unfold updateOwnPassword at h
  split at h
  · cases h
  · rename_i u hget
    obtain ⟨passwordHash, -, h⟩ := except_bind_eq_ok.mp h
    exact ⟨u, passwordHash, hget, (Except.ok.inj h).symm⟩

/-- The command line resets the password of an administrator. -/
theorem resetAdministratorPassword_eq_ok [Unicode] {s s' : Accounts}
    {username password : List Char} {salt now id : ℕ}
    (h : resetAdministratorPassword s username password salt now = .ok (id, s')) :
    ∃ u passwordHash, s.users.get id = some u ∧
      s' = s.setPassword id passwordHash false now := by
  unfold resetAdministratorPassword at h
  obtain ⟨normalizedUsername, -, h⟩ := except_bind_eq_ok.mp h
  dsimp only at h
  split at h
  · cases h
  · rename_i r id' u hr
    obtain ⟨passwordHash, -, h⟩ := except_bind_eq_ok.mp h
    obtain ⟨rfl, hs⟩ := Prod.mk.inj (Except.ok.inj h)
    exact ⟨u, passwordHash, (get_of_firstRow hr).1, hs.symm⟩

end Passwords

end PalworldManager
