/-
# Accounts

The tables of `db/models/identity.py`, with `auth/roles.py`, `auth/passwords.py` and
`normalize_username` of `auth/service.py`.  A moment is a number of microseconds.  The hash
function of the passwords is not in the repository: it comes as a parameter, the class
`PasswordHasher`.  The address an attempt came from, the audit trail and the columns that no
modelled function reads back (`created_at`, `updated_at`) are left out.
-/

import PalworldManager.Effects.Table
import PalworldManager.Outcomes
import PalworldManager.Text.Chars

namespace PalworldManager

open Effects Text

/-- `UserRole`. -/
inductive UserRole where
  | admin
  | user
  deriving DecidableEq, Repr

/-- `username_key`. -/
def usernameKey [Unicode] (username : List Char) : List Char := Unicode.casefold username

/-- A row of `users`. -/
structure User where
  username : List Char
  usernameKey : List Char
  passwordHash : List Char
  role : UserRole
  isActive : Bool
  passwordChangeRequired : Bool
  deriving DecidableEq, Repr

/-- A row of `sessions`. -/
structure SessionRecord where
  userId : ℕ
  tokenHash : List Char
  csrfTokenHash : List Char
  expiresAt : ℕ
  lastSeenAt : ℕ
  revokedAt : Option ℕ
  deriving DecidableEq, Repr

/-- A row of `login_attempts`. -/
structure LoginAttempt where
  userId : Option ℕ
  username : Option (List Char)
  successful : Bool
  attemptedAt : ℕ
  blockedUntil : Option ℕ
  deriving DecidableEq, Repr

/-- What the authentication keeps. -/
structure Accounts where
  users : Table User
  sessions : Table SessionRecord
  loginAttempts : Table LoginAttempt

/-- The exceptions of `auth` and `users`. -/
inductive AuthError where
  | usernameWithLineBreak
  | usernameEmpty
  | usernameTooLong
  | passwordTooShort
  | passwordTooLong
  | administratorAlreadyExists
  | administratorNotFound
  | usernameAlreadyExists
  | userNotFound
  | selfManagement
  | lastActiveAdministrator
  | integrityError
  deriving DecidableEq, Repr

/-- The text of an exception; that of an `IntegrityError` is the driver's. -/
def AuthError.message : AuthError → Option String
  | .usernameWithLineBreak => "O nome de usuario nao pode conter quebras de linha."
  | .usernameEmpty => "O nome de usuario nao pode ficar vazio."
  | .usernameTooLong => "O nome de usuario deve ter no maximo 100 caracteres."
  | .passwordTooShort => "A senha deve ter no minimo 6 caracteres."
  | .passwordTooLong => "A senha deve ter no maximo 1024 caracteres."
  | .administratorAlreadyExists => "O administrador inicial ja foi criado."
  | .administratorNotFound => "Administrador nao encontrado."
  | .usernameAlreadyExists => "Já existe um usuário com esse nome."
  | .userNotFound => "Usuário não encontrado."
  | .selfManagement =>
    "Use Minha conta para alterar sua própria senha; " ++
      "papel e status próprios não podem ser alterados."
  | .lastActiveAdministrator => "O último administrador ativo deve ser preservado."
  | .integrityError => none

/-- `MAXIMUM_USERNAME_LENGTH`. -/
def maximumUsernameLength : ℕ := 100

/-- `MINIMUM_PASSWORD_LENGTH`. -/
def minimumPasswordLength : ℕ := 6

/-- `MAXIMUM_PASSWORD_LENGTH`. -/
def maximumPasswordLength : ℕ := 1024

/-- `normalize_username`. -/
def normalizeUsername (username : List Char) : Except AuthError (List Char) := do
  refuseIf ('\n' ∈ username ∨ '\r' ∈ username) .usernameWithLineBreak
  let normalized := strip username
  refuseIf (normalized = []) .usernameEmpty
  refuseIf (maximumUsernameLength < normalized.length) .usernameTooLong
  pure normalized

/-- The hasher of the passwords: a hash is salted, and a check that raises answers no. -/
class PasswordHasher where
  hash (password : List Char) (salt : ℕ) : List Char
  verify (passwordHash password : List Char) : Bool
  dummyHash : List Char

/-- `validate_password`. -/
def validatePassword (password : List Char) : Except AuthError Unit := do
  refuseIf (password.length < minimumPasswordLength) .passwordTooShort
  refuseIf (maximumPasswordLength < password.length) .passwordTooLong

section Passwords

variable [PasswordHasher]

/-- `hash_password`. -/
def hashPassword (password : List Char) (salt : ℕ) : Except AuthError (List Char) := do
  validatePassword password
  pure (PasswordHasher.hash password salt)

/-- `verify_password`. -/
def verifyPassword (password passwordHash : List Char) : Bool :=
  if maximumPasswordLength < password.length then false
  else PasswordHasher.verify passwordHash password

/-- `verify_password_or_dummy`. -/
def verifyPasswordOrDummy (password : List Char) (passwordHash : Option (List Char)) : Bool :=
  let candidate := passwordHash.getD PasswordHasher.dummyHash
  let verified := verifyPassword password candidate
  passwordHash.isSome && verified

end Passwords

/-- The first row of a table that meets a condition. -/
def firstRow {α : Type} (t : Table α) (p : α → Bool) : Option (ℕ × α) :=
  t.rows.find? fun r => p r.2

/-- What is found is in the table, and meets the condition. -/
theorem get_of_firstRow {α : Type} {t : Table α} {p : α → Bool} {r : ℕ × α}
    (h : firstRow t p = some r) : t.get r.1 = some r.2 ∧ p r.2 = true := by
  have hp := List.find?_some h
  exact ⟨Table.mem_rows_iff.mp (List.mem_of_find?_eq_some h), hp⟩

/-- What is found is mapped, if the condition stays. -/
theorem firstRow_mapRows {α : Type} {t : Table α} {p : α → Bool} {f : ℕ → α → α}
    (hf : ∀ k a, p (f k a) = p a) :
    firstRow (t.mapRows f) p = (firstRow t p).map fun r => (r.1, f r.1 r.2) := by
  simp only [firstRow, Table.mapRows, List.find?_map, Function.comp_def, hf]

/-- What is found is found before what is added. -/
theorem firstRow_add_of_some {α : Type} {t : Table α} {p : α → Bool} {r : ℕ × α} (a : α)
    (h : firstRow t p = some r) : firstRow (t.add a) p = some r := by
  unfold firstRow at h ⊢
  rw [Table.add, Table.insertAt, List.find?_append, h, Option.some_or]

/-- What is added is found if nothing was. -/
theorem firstRow_add_of_none {α : Type} {t : Table α} {p : α → Bool} {a : α}
    (h : firstRow t p = none) (ha : p a = true) :
    firstRow (t.add a) p = some (t.nextId, a) := by
  unfold firstRow at h ⊢
  rw [Table.add, Table.insertAt, List.find?_append, h, Option.none_or, List.find?_singleton,
    if_pos ha]

end PalworldManager
