/-
# Sessions

`auth/sessions.py`.  A token is kept as its hash only; the hash function comes as a parameter,
the class `TokenHasher`, and the tokens that `generate_token` draws as arguments.
-/

import PalworldManager.Auth.LoginProtection

namespace PalworldManager

open Effects

/-- `SESSION_MAXIMUM_DURATION`. -/
def sessionMaximumDuration : ℕ := minutes (8 * 60)

/-- `SESSION_INACTIVITY_TIMEOUT`. -/
def sessionInactivityTimeout : ℕ := minutes 60

/-- `hash_token`. -/
class TokenHasher where
  hashToken : List Char → List Char

export TokenHasher (hashToken)

/-- A revocation keeps the moment of the first. -/
def SessionRecord.revoke (r : SessionRecord) (now : ℕ) : SessionRecord :=
  if r.revokedAt.isNone then { r with revokedAt := some now } else r

structure IssuedSession where
  sessionToken : List Char
  csrfToken : List Char
  expiresAt : ℕ
  deriving DecidableEq, Repr

structure SessionPrincipal where
  sessionId : ℕ
  userId : ℕ
  username : List Char
  role : UserRole
  passwordChangeRequired : Bool
  csrfTokenHash : List Char
  deriving DecidableEq, Repr

variable [TokenHasher]

/-- The row of `sessions` with the hash of a token; the column is unique. -/
def Accounts.sessionOf (s : Accounts) (token : List Char) : Option (ℕ × SessionRecord) :=
  firstRow s.sessions fun r => r.tokenHash == hashToken token

/-- `issue_session`.  The user has to exist, and the hash of the token has to be new. -/
def issueSession (s : Accounts) (userId : ℕ) (sessionToken csrfToken : List Char) (now : ℕ) :
    Except AuthError (IssuedSession × Accounts) :=
  let expiresAt := now + sessionMaximumDuration
  if (s.users.get userId).isNone ∨ (s.sessionOf sessionToken).isSome then
    .error .integrityError
  else
    let record : SessionRecord :=
      { userId := userId
        tokenHash := hashToken sessionToken
        csrfTokenHash := hashToken csrfToken
        expiresAt := expiresAt
        lastSeenAt := now
        revokedAt := none }
    .ok (⟨sessionToken, csrfToken, expiresAt⟩, { s with sessions := s.sessions.add record })

/-- Whether `resolve_session` rejects a record. -/
def SessionRecord.rejected (r : SessionRecord) (u : User) (now : ℕ) : Bool :=
  let expired := r.expiresAt ≤ now
  let inactive := r.lastSeenAt + sessionInactivityTimeout ≤ now
  r.revokedAt.isSome || expired || inactive || !u.isActive

/-- `resolve_session`. -/
def resolveSession (s : Accounts) (token : Option (List Char)) (now : ℕ) :
    Option SessionPrincipal × Accounts :=
  match token with
  | none => (none, s)
  | some token =>
    match s.sessionOf token with
    | none => (none, s)
    | some (sessionId, record) =>
      match s.users.get record.userId with
      | none => (none, s)
      | some user =>
        if record.rejected user now then
          (none, { s with sessions := s.sessions.modify sessionId fun r => r.revoke now })
        else
          (some
            { sessionId := sessionId
              userId := record.userId
              username := user.username
              role := user.role
              passwordChangeRequired := user.passwordChangeRequired
              csrfTokenHash := record.csrfTokenHash },
            { s with sessions :=
              s.sessions.modify sessionId fun r => { r with lastSeenAt := now } })

/-- `session_csrf_is_valid`. -/
def sessionCsrfIsValid (principal : SessionPrincipal) (csrfToken : Option (List Char)) : Bool :=
  match csrfToken with
  | none => false
  | some token => hashToken token == principal.csrfTokenHash

omit [TokenHasher]

/-- `revoke_session`. -/
def revokeSession (s : Accounts) (sessionId : ℕ) (now : ℕ) : Accounts :=
  { s with sessions := s.sessions.modify sessionId fun r => r.revoke now }

/-- `revoke_user_sessions`. -/
def revokeUserSessions (s : Accounts) (userId : ℕ) (now : ℕ) : Accounts :=
  { s with sessions :=
    s.sessions.mapRows fun _ r => if r.userId = userId then r.revoke now else r }

/-! ### What the functions do -/

section Specs

variable [TokenHasher]

/-- **A session that is issued** is new, and of a user that is there. -/
theorem issueSession_eq_ok {s s' : Accounts} {userId now : ℕ} {sessionToken csrfToken : List Char}
    {issued : IssuedSession} (h : issueSession s userId sessionToken csrfToken now = .ok (issued, s')) :
    s.sessionOf sessionToken = none ∧ (∃ u, s.users.get userId = some u) ∧
      issued.sessionToken = sessionToken ∧
      s' = { s with sessions := s.sessions.add (SessionRecord.mk userId (hashToken sessionToken)
        (hashToken csrfToken) (now + sessionMaximumDuration) now none) } := by
  unfold issueSession at h
  dsimp only at h
  split at h
  · cases h
  · rename_i hnew
    obtain ⟨rfl, rfl⟩ := Prod.mk.inj (Except.ok.inj h)
    refine ⟨by simpa using fun hs => hnew (.inr hs), ?_, rfl, rfl⟩
    cases hu : s.users.get userId with
    | none => exact absurd (.inl (by rw [hu]; rfl)) hnew
    | some u => exact ⟨u, rfl⟩

/-- **All that a resolution can do.**  It finds no session with a user, or rejects it, or
accepts it. -/
theorem resolveSession_cases (s : Accounts) (token : Option (List Char)) (now : ℕ) :
    (resolveSession s token now = (none, s) ∧ ∀ t, token = some t → ∀ k r,
        s.sessionOf t = some (k, r) → s.users.get r.userId = none) ∨
      ∃ t k r u, token = some t ∧ s.sessionOf t = some (k, r) ∧ s.users.get r.userId = some u ∧
        ((r.rejected u now = true ∧ resolveSession s token now =
            (none, { s with sessions := s.sessions.modify k fun r => r.revoke now })) ∨
          (r.rejected u now = false ∧ resolveSession s token now =
            (some ⟨k, r.userId, u.username, u.role, u.passwordChangeRequired, r.csrfTokenHash⟩,
              { s with sessions :=
                s.sessions.modify k fun r => { r with lastSeenAt := now } }))) := by
  cases token with
  | none => exact .inl ⟨rfl, nofun⟩
  | some t =>
    cases hs : s.sessionOf t with
    | none =>
      refine .inl ⟨by simp only [resolveSession, hs], fun t' ht k r hr => ?_⟩
      rw [← Option.some.inj ht, hs] at hr
      cases hr
    | some x =>
      obtain ⟨k, r⟩ := x
      cases hu : s.users.get r.userId with
      | none =>
        refine .inl ⟨by simp only [resolveSession, hs, hu], fun t' ht k' r' hr => ?_⟩
        rw [← Option.some.inj ht, hs] at hr
        cases hr
        exact hu
      | some u =>
        refine .inr ⟨t, k, r, u, rfl, hs, hu, ?_⟩
        cases hrejected : r.rejected u now with
        | true => exact .inl ⟨rfl, by simp only [resolveSession, hs, hu, hrejected, if_true]⟩
        | false => exact .inr ⟨rfl, by simp [resolveSession, hs, hu, hrejected]⟩

end Specs

end PalworldManager
