/-
# How long a session is valid

A session that was issued is followed through the operations after it (`Tracked`): its user and
its end do not change, it was seen last when it was issued or last resolved, and neither a
revocation nor a rejection is ever taken back.  The last is the point where the modules meet:
a session that is rejected because its user is inactive stays so although the user may be
activated again, since the activation revokes the sessions of the user.

What a resolution that succeeds says of all that came before it is then read off the record it
found (`AccountRun.session_valid`).
-/

import PalworldManager.Users.Operations

namespace PalworldManager

open Effects Text

namespace AccountEvent

/-- A committed operation after which no session of the user, or not this session, is valid. -/
def Revokes (e : AccountEvent) (sessionId userId : ℕ) : Prop :=
  e.committed = true ∧ (e.changed = some userId ∨ e.operation = .revoke sessionId ∨
    e.operation = .revokeUser userId)

/-- A resolution that rejects a token, committed or not. -/
def Rejects (e : AccountEvent) (token : List Char) : Prop :=
  e.operation = .resolve (some token) ∧ e.outcome = .ok (.resolved none)

/-- A committed resolution of a session. -/
def Resolves (e : AccountEvent) (sessionId : ℕ) : Prop :=
  e.committed = true ∧ ∃ p, e.outcome = .ok (.resolved (some p)) ∧ p.sessionId = sessionId

end AccountEvent

/-- What an operation may make of a record and of its user: nothing is taken back, and it is
seen again only where it is not rejected. -/
structure RecordMoved (now : ℕ) (r r' : SessionRecord) (u u' : User) : Prop where
  userId : r'.userId = r.userId
  expiresAt : r'.expiresAt = r.expiresAt
  revokedAt : r.revokedAt.isSome → r'.revokedAt.isSome
  lastSeenAt : r'.lastSeenAt = r.lastSeenAt ∨ r'.lastSeenAt = now ∧ r.rejected u now = false
  isActive : u.isActive = false → r'.revokedAt.isSome ∨ u'.isActive = false

/-- An operation may do nothing. -/
theorem RecordMoved.refl (now : ℕ) (r : SessionRecord) (u : User) : RecordMoved now r r u u :=
  ⟨rfl, rfl, id, .inl rfl, .inr⟩

/-- What a session is rejected for. -/
theorem rejected_iff {r : SessionRecord} {u : User} {now : ℕ} :
    r.rejected u now = true ↔ r.revokedAt.isSome ∨ r.expiresAt ≤ now ∨
      r.lastSeenAt + sessionInactivityTimeout ≤ now ∨ u.isActive = false := by
  simp [SessionRecord.rejected, or_assoc]

/-- What was rejected once is rejected from then on. -/
theorem rejected_mono {r : SessionRecord} {u : User} {t now : ℕ} (h : r.rejected u t = true)
    (hle : t ≤ now) : r.rejected u now = true := by
  rw [rejected_iff] at h ⊢
  rcases h with h | h | h | h
  · exact .inl h
  · exact .inr (.inl (h.trans hle))
  · exact .inr (.inr (.inl (h.trans hle)))
  · exact .inr (.inr (.inr h))

/-- **A rejection is never taken back.** -/
theorem RecordMoved.rejected {now t : ℕ} {r r' : SessionRecord} {u u' : User}
    (h : RecordMoved now r r' u u') (hr : r.rejected u t = true) (hle : t ≤ now) :
    r'.rejected u' t = true := by
  have hnow := rejected_mono hr hle
  have hseen : r'.lastSeenAt = r.lastSeenAt := by
    rcases h.lastSeenAt with hseen | ⟨-, hfalse⟩
    · exact hseen
    · rw [hfalse] at hnow
      cases hnow
  rw [rejected_iff] at hr ⊢
  rcases hr with hr | hr | hr | hr
  · exact .inl (h.revokedAt hr)
  · exact .inr (.inl (h.expiresAt ▸ hr))
  · exact .inr (.inr (.inl (hseen ▸ hr)))
  · rcases h.isActive hr with hr | hr
    · exact .inl hr
    · exact .inr (.inr (.inr hr))

/-- What is revoked is revoked. -/
theorem revoke_isSome (r : SessionRecord) (now : ℕ) : (r.revoke now).revokedAt.isSome := by
  unfold SessionRecord.revoke
  cases h : r.revokedAt <;> simp [h]

/-- A revocation does not see the session. -/
theorem revoke_lastSeenAt (r : SessionRecord) (now : ℕ) :
    (r.revoke now).lastSeenAt = r.lastSeenAt := by
  unfold SessionRecord.revoke
  split <;> rfl

/-- A revocation takes nothing back. -/
theorem revoke_moved (r : SessionRecord) (u u' : User) (now : ℕ) :
    RecordMoved now r (r.revoke now) u u' := by
  refine ⟨?_, ?_, fun _ => revoke_isSome r now, .inl ?_, fun _ => .inl (revoke_isSome r now)⟩ <;>
  · unfold SessionRecord.revoke
    split <;> rfl

section Sessions

variable [TokenHasher]

/-- What an operation leaves of a session that was there: the record of the same token, and its
user. -/
structure SessionMoved (now : ℕ) (token : List Char) (k : ℕ) (r : SessionRecord) (u : User)
    (s' : Accounts) (r' : SessionRecord) (u' : User) : Prop where
  session : s'.sessionOf token = some (k, r')
  user : s'.users.get r.userId = some u'
  moved : RecordMoved now r r' u u'

variable {s : Accounts} {token : List Char} {k : ℕ} {r : SessionRecord} {u : User}

omit [TokenHasher] in
/-- A revocation keeps the token. -/
theorem revoke_tokenHash (r : SessionRecord) (now : ℕ) : (r.revoke now).tokenHash = r.tokenHash := by
  unfold SessionRecord.revoke
  split <;> rfl

/-- The session of a token after those of a user were revoked. -/
theorem sessionOf_revokeUserSessions (s : Accounts) (id now : ℕ) (token : List Char) :
    (revokeUserSessions s id now).sessionOf token =
      (s.sessionOf token).map fun x =>
        (x.1, if x.2.userId = id then x.2.revoke now else x.2) := by
  refine @firstRow_mapRows _ s.sessions (fun r => r.tokenHash == hashToken token)
    (fun _ r => if r.userId = id then r.revoke now else r) fun k r => ?_
  split
  · rw [revoke_tokenHash]
  · rfl

/-- The session of a token after one session was changed. -/
theorem sessionOf_modify (s : Accounts) (id : ℕ) {f : SessionRecord → SessionRecord}
    (hf : ∀ r, (f r).tokenHash = r.tokenHash) (token : List Char) :
    ({ s with sessions := s.sessions.modify id f }).sessionOf token =
      (s.sessionOf token).map fun x => (x.1, if x.1 = id then f x.2 else x.2) := by
  refine @firstRow_mapRows _ s.sessions (fun r => r.tokenHash == hashToken token)
    (fun i r => if i = id then f r else r) fun k r => ?_
  split
  · rw [hf]
  · rfl

/-- Where the sessions of a user are revoked, it does not matter what the user has become. -/
theorem sessionMoved_revoked (id now : ℕ) {u' : User} (hs : s.sessionOf token = some (k, r))
    (hu : s.users.get r.userId = some u') (hsame : r.userId ≠ id → u' = u) :
    ∃ r', SessionMoved now token k r u (revokeUserSessions s id now) r' u' ∧
      r'.lastSeenAt = r.lastSeenAt ∧ (r.userId = id → r'.revokedAt.isSome) := by
  have hsession : (revokeUserSessions s id now).sessionOf token =
      some (k, if r.userId = id then r.revoke now else r) := by
    rw [sessionOf_revokeUserSessions, hs, Option.map_some]
  by_cases hid : r.userId = id
  · rw [if_pos hid] at hsession
    exact ⟨_, ⟨hsession, hu, revoke_moved r u u' now⟩, revoke_lastSeenAt r now,
      fun _ => revoke_isSome r now⟩
  · rw [if_neg hid] at hsession
    obtain rfl := hsame hid
    exact ⟨_, ⟨hsession, hu, RecordMoved.refl now r u'⟩, rfl, fun h => absurd h hid⟩

/-- Where a user is changed and its sessions are revoked, no session of it is missed. -/
theorem sessionMoved_changed (id now : ℕ) (f : User → User) (hs : s.sessionOf token = some (k, r))
    (hu : s.users.get r.userId = some u) :
    ∃ r' u', SessionMoved now token k r u (revokeUserSessions (s.modifyUser id f) id now) r' u' ∧
      r'.lastSeenAt = r.lastSeenAt ∧ (r.userId = id → r'.revokedAt.isSome) := by
  have hs' : (s.modifyUser id f).sessionOf token = some (k, r) := hs
  have hu' : (s.modifyUser id f).users.get r.userId =
      some (if r.userId = id then f u else u) := by
    change (s.users.modify id f).get r.userId = _
    rw [Table.get_modify, hu]
    split <;> rfl
  obtain ⟨r', hm⟩ := @sessionMoved_revoked _ _ _ _ _ u id now _ hs' hu' fun hid => if_neg hid
  exact ⟨r', _, hm⟩

/-- Where one session alone is changed. -/
theorem sessionMoved_modify {id now : ℕ} {f : SessionRecord → SessionRecord}
    (hf : ∀ r, (f r).tokenHash = r.tokenHash) (hs : s.sessionOf token = some (k, r))
    (hu : s.users.get r.userId = some u) (hmoved : k = id → RecordMoved now r (f r) u u) :
    SessionMoved now token k r u { s with sessions := s.sessions.modify id f }
      (if k = id then f r else r) u := by
  refine ⟨?_, hu, ?_⟩
  · rw [sessionOf_modify s id hf, hs, Option.map_some]
  · by_cases hk : k = id
    · rw [if_pos hk]
      exact hmoved hk
    · rw [if_neg hk]
      exact RecordMoved.refl now r u

/-- What an operation that returns leaves of a session: where its user is changed or it is
revoked, it is revoked; it is seen again only when it is resolved; and what its own token
resolves to says whether it was rejected. -/
structure SessionStep (s : Accounts) (token : List Char) (k : ℕ) (r : SessionRecord) (u : User)
    (now : ℕ) (op : AccountOperation) (result : AccountResult) (s' : Accounts)
    (r' : SessionRecord) (u' : User) : Prop where
  moved : SessionMoved now token k r u s' r' u'
  changed : op.changes s result = some r.userId → r'.revokedAt.isSome
  revoked : op = .revoke k ∨ op = .revokeUser r.userId → r'.revokedAt.isSome
  seen : r'.lastSeenAt = r.lastSeenAt ∨ ∃ p, result = .resolved (some p) ∧ p.sessionId = k
  resolved : op = .resolve (some token) →
    (result = .resolved none ∧ r.rejected u now = true) ∨
      ∃ p, result = .resolved (some p) ∧ p.sessionId = k ∧ p.userId = r.userId ∧
        r.rejected u now = false

variable {s' : Accounts} {now : ℕ} {op : AccountOperation} {result : AccountResult}
  {r' : SessionRecord} {u' : User}

/-- Where the operation is about no session, the session is seen no more. -/
theorem sessionStep_of_moved (hm : SessionMoved now token k r u s' r' u')
    (hseen : r'.lastSeenAt = r.lastSeenAt) (hop : op.isOnSessions = false)
    (hchanges : op.changes s result = some r.userId → r'.revokedAt.isSome) :
    SessionStep s token k r u now op result s' r' u' where
  moved := hm
  changed := hchanges
  revoked h := by rcases h with rfl | rfl <;> cases hop
  seen := .inl hseen
  resolved h := by rw [h] at hop; cases hop

/-- Where the session and its user are still there. -/
theorem sessionStep_kept (hs : s'.sessionOf token = some (k, r))
    (hu : s'.users.get r.userId = some u) (hop : op.isOnSessions = false)
    (hchanges : op.changes s result = none) : SessionStep s token k r u now op result s' r u := by
  refine sessionStep_of_moved ⟨hs, hu, RecordMoved.refl now r u⟩ rfl hop fun h => ?_
  rw [hchanges] at h
  cases h

/-- A user is changed: the sessions of the user are revoked. -/
theorem sessionStep_changed {id : ℕ} (f : User → User) (hs : s.sessionOf token = some (k, r))
    (hu : s.users.get r.userId = some u) (hop : op.isOnSessions = false)
    (hchanges : ∀ userId ∈ op.changes s result, userId = id) :
    ∃ r' u', SessionStep s token k r u now op result
      (revokeUserSessions (s.modifyUser id f) id now) r' u' := by
  obtain ⟨r', u', hm, hseen, hrevoked⟩ := sessionMoved_changed id now f hs hu
  exact ⟨r', u', sessionStep_of_moved hm hseen hop fun h => hrevoked (hchanges _ h)⟩

/-- A session is revoked, perhaps this one. -/
theorem sessionStep_revoke (sessionId : ℕ) (hs : s.sessionOf token = some (k, r))
    (hu : s.users.get r.userId = some u) :
    ∃ r', SessionStep s token k r u now (.revoke sessionId) .done
      (revokeSession s sessionId now) r' u := by
  have hm := sessionMoved_modify (fun r => revoke_tokenHash r now) hs hu
    fun _ : k = sessionId => revoke_moved r u u now
  refine ⟨_, ⟨hm, nofun, fun hop => ?_, .inl ?_, nofun⟩⟩
  · obtain rfl : k = sessionId := by simpa [eq_comm] using hop
    rw [if_pos rfl]
    exact revoke_isSome r now
  · split
    · exact revoke_lastSeenAt r now
    · rfl

/-- The sessions of a user are revoked, perhaps this one. -/
theorem sessionStep_revokeUser (userId : ℕ) (hs : s.sessionOf token = some (k, r))
    (hu : s.users.get r.userId = some u) :
    ∃ r', SessionStep s token k r u now (.revokeUser userId) .done
      (revokeUserSessions s userId now) r' u := by
  obtain ⟨r', hm, hseen, hrevoked⟩ := sessionMoved_revoked userId now hs hu fun _ => rfl
  refine ⟨r', ⟨hm, nofun, fun hop => hrevoked ?_, .inl hseen, nofun⟩⟩
  simpa [eq_comm] using hop

/-- A token that is rejected: its session is revoked, perhaps this one. -/
theorem sessionStep_rejected {t : List Char} {k₁ : ℕ} {r₁ : SessionRecord} {u₁ : User}
    (hs : s.sessionOf token = some (k, r)) (hu : s.users.get r.userId = some u)
    (hs₁ : s.sessionOf t = some (k₁, r₁)) (hu₁ : s.users.get r₁.userId = some u₁)
    (hrejected : r₁.rejected u₁ now = true) :
    ∃ r', SessionStep s token k r u now (.resolve (some t)) (.resolved none)
      { s with sessions := s.sessions.modify k₁ fun r => r.revoke now } r' u := by
  have hm := sessionMoved_modify (fun r => revoke_tokenHash r now) hs hu
    fun _ : k = k₁ => revoke_moved r u u now
  refine ⟨_, ⟨hm, nofun, by simp, .inl ?_, fun hop => .inl ⟨rfl, ?_⟩⟩⟩
  · split
    · exact revoke_lastSeenAt r now
    · rfl
  · obtain rfl : t = token := by simpa using hop
    obtain ⟨rfl, rfl⟩ := Prod.mk.inj (Option.some.inj (hs₁.symm.trans hs))
    rwa [Option.some.inj (hu.symm.trans hu₁)]

/-- A token that is accepted: its session is seen, perhaps this one. -/
theorem sessionStep_accepted {t : List Char} {r₁ : SessionRecord} {u₁ : User}
    {p : SessionPrincipal} (hs : s.sessionOf token = some (k, r))
    (hu : s.users.get r.userId = some u) (hs₁ : s.sessionOf t = some (p.sessionId, r₁))
    (hu₁ : s.users.get r₁.userId = some u₁) (hrejected : r₁.rejected u₁ now = false)
    (hp : p.userId = r₁.userId) :
    ∃ r', SessionStep s token k r u now (.resolve (some t)) (.resolved (some p))
      { s with sessions := s.sessions.modify p.sessionId fun r => { r with lastSeenAt := now } }
      r' u := by
  have hsame (hk : k = p.sessionId) : r = r₁ ∧ u = u₁ := by
    have hget := (get_of_firstRow hs).1
    have hget₁ := (get_of_firstRow hs₁).1
    obtain rfl : r = r₁ := Option.some.inj (hget.symm.trans (hk ▸ hget₁))
    exact ⟨rfl, Option.some.inj (hu.symm.trans hu₁)⟩
  have hmoved (hk : k = p.sessionId) : RecordMoved now r { r with lastSeenAt := now } u u := by
    obtain ⟨rfl, rfl⟩ := hsame hk
    exact ⟨rfl, rfl, id, .inr ⟨rfl, hrejected⟩, .inr⟩
  have hm := @sessionMoved_modify _ s token k r u p.sessionId now
    (fun r => { r with lastSeenAt := now }) (fun _ => rfl) hs hu hmoved
  refine ⟨_, ⟨hm, nofun, by simp, ?_, fun hop => .inr ⟨p, rfl, ?_⟩⟩⟩
  · by_cases hk : k = p.sessionId
    · exact .inr ⟨p, rfl, hk.symm⟩
    · rw [if_neg hk]
      exact .inl rfl
  · obtain rfl : t = token := by simpa using hop
    obtain ⟨hk, rfl⟩ := Prod.mk.inj (Option.some.inj (hs₁.symm.trans hs))
    exact ⟨hk, hp, Option.some.inj (hu.symm.trans hu₁) ▸ hrejected⟩

/-- Whatever a token resolves to. -/
theorem sessionStep_resolve (sessionToken : Option (List Char))
    (hs : s.sessionOf token = some (k, r)) (hu : s.users.get r.userId = some u) :
    ∃ r', SessionStep s token k r u now (.resolve sessionToken)
      (.resolved (resolveSession s sessionToken now).1) (resolveSession s sessionToken now).2
      r' u := by
  obtain ⟨he, hnone⟩ | ⟨t, k₁, r₁, u₁, rfl, hs₁, hu₁, ⟨hrejected, he⟩ | ⟨hrejected, he⟩⟩ :=
    resolveSession_cases s sessionToken now
  · rw [he]
    refine ⟨r, ⟨⟨hs, hu, RecordMoved.refl now r u⟩, nofun, by simp, .inl rfl, fun hop => ?_⟩⟩
    have hget := hnone token (AccountOperation.resolve.inj hop) k r hs
    rw [hu] at hget
    cases hget
  · rw [he]
    exact sessionStep_rejected hs hu hs₁ hu₁ hrejected
  · rw [he]
    exact sessionStep_accepted hs hu hs₁ hu₁ hrejected rfl

end Sessions

section Runs

variable [Unicode] [PasswordHasher] [TokenHasher] {s s' : Accounts} {token : List Char} {k : ℕ}
  {r : SessionRecord} {u : User}

/-- **What an operation does to a session.** -/
theorem perform_session {now : ℕ} {op : AccountOperation} {result : AccountResult}
    (h : performOperation s now op = .ok (result, s'))
    (hs : s.sessionOf token = some (k, r)) (hu : s.users.get r.userId = some u) :
    ∃ r' u', SessionStep s token k r u now op result s' r' u' := by
  cases performOperation_eq_ok h with
  | kept husers hsessions hop hchanges =>
    refine ⟨r, u, sessionStep_kept ?_ (husers ▸ hu) hop hchanges⟩
    rwa [Accounts.sessionOf, hsessions]
  | added v hop hchanges =>
    exact ⟨r, u, sessionStep_kept hs (Table.get_add_of_some hu) hop hchanges⟩
  | changed f hget hguard hop hchanges => exact sessionStep_changed f hs hu hop hchanges
  | issued r₁ hop hchanges =>
    exact ⟨r, u, sessionStep_kept (firstRow_add_of_some _ hs) hu hop hchanges⟩
  | resolved sessionToken hop hresult =>
    subst hop hresult
    obtain ⟨r', hstep⟩ := sessionStep_resolve sessionToken hs hu
    exact ⟨r', u, hstep⟩
  | revoked sessionId hop hresult =>
    subst hop hresult
    obtain ⟨r', hstep⟩ := sessionStep_revoke sessionId hs hu
    exact ⟨r', u, hstep⟩
  | revokedUser userId hop hresult =>
    subst hop hresult
    obtain ⟨r', hstep⟩ := sessionStep_revokeUser userId hs hu
    exact ⟨r', u, hstep⟩

/-- What is known of a session that was issued, after the events that came since. -/
structure Tracked (s : Accounts) (token : List Char) (issuedAt userId k : ℕ) (r : SessionRecord)
    (u : User) (mid : List AccountEvent) : Prop where
  session : s.sessionOf token = some (k, r)
  user : s.users.get r.userId = some u
  owner : r.userId = userId
  expiresAt : r.expiresAt = issuedAt + sessionMaximumDuration
  lastSeenAt : r.lastSeenAt = issuedAt ∨ ∃ e ∈ mid, e.Resolves k ∧ e.time = r.lastSeenAt
  revoked : ∀ e ∈ mid, e.Revokes k userId → r.revokedAt.isSome
  rejected : ∀ e ∈ mid, e.Rejects token → r.rejected u e.time = true

/-- A session that is issued is tracked. -/
theorem tracked_issue {now userId : ℕ} {csrfToken : List Char} {result : AccountResult}
    (h : performOperation s now (.issue userId token csrfToken) = .ok (result, s')) :
    ∃ k r u, Tracked s' token now userId k r u [] := by
  obtain ⟨⟨session, s''⟩, hc, he⟩ := except_map_eq_ok.mp h
  obtain ⟨-, rfl⟩ := Prod.mk.inj he
  obtain ⟨hnew, ⟨u, hu⟩, -, rfl⟩ := issueSession_eq_ok hc
  let r : SessionRecord := SessionRecord.mk userId (hashToken token) (hashToken csrfToken)
    (now + sessionMaximumDuration) now none
  have hfound : firstRow (s.sessions.add r) (fun r => r.tokenHash == hashToken token) =
      some (s.sessions.nextId, r) := firstRow_add_of_none hnew (beq_self_eq_true _)
  exact ⟨s.sessions.nextId, r, u,
    { session := hfound
      user := hu
      owner := rfl
      expiresAt := rfl
      lastSeenAt := .inl rfl
      revoked := fun _ hmem => absurd hmem List.not_mem_nil
      rejected := fun _ hmem => absurd hmem List.not_mem_nil }⟩

/-- **One more operation**, committed or not. -/
theorem Tracked.step {issuedAt userId : ℕ} {mid : List AccountEvent} {e : AccountEvent}
    (h : Tracked s token issuedAt userId k r u mid) (hstep : AccountStep s e s')
    (hle : ∀ x ∈ mid, x.time ≤ e.time) :
    ∃ r' u', Tracked s' token issuedAt userId k r' u' (mid ++ [e]) := by
  -- what is not committed leaves the record, and a rejection shows in it
  have hstay (hcommitted : e.committed = false)
      (hrejects : e.Rejects token → r.rejected u e.time = true) :
      Tracked s token issuedAt userId k r u (mid ++ [e]) := by
    refine ⟨h.session, h.user, h.owner, h.expiresAt, ?_, fun x hx => ?_, fun x hx => ?_⟩
    · exact h.lastSeenAt.imp_right fun ⟨x, hx, hx'⟩ => ⟨x, List.mem_append_left _ hx, hx'⟩
    · rcases List.mem_append.mp hx with hx | hx
      · exact h.revoked x hx
      · rintro ⟨htrue, -⟩
        rw [List.mem_singleton.mp hx, hcommitted] at htrue
        cases htrue
    · rcases List.mem_append.mp hx with hx | hx
      · exact h.rejected x hx
      · exact List.mem_singleton.mp hx ▸ hrejects
  cases hstep with
  | refuse hp => exact ⟨r, u, hstay rfl fun hrejects => by cases hrejects.2⟩
  | @rollback now op result s'' hp =>
    refine ⟨r, u, hstay rfl fun hrejects => ?_⟩
    obtain ⟨r', u', hmoved⟩ := perform_session hp h.session h.user
    rcases hmoved.resolved hrejects.1 with ⟨-, hr⟩ | ⟨p, hp', -⟩
    · exact hr
    · rw [show result = .resolved none from Except.ok.inj hrejects.2] at hp'
      cases hp'
  | @commit now op result s'' hp =>
    obtain ⟨r', u', hm, hchanges, hrevokes, hseen, hresolve⟩ :=
      perform_session hp h.session h.user
    have hid := hm.moved.userId
    refine ⟨r', u', hm.session, hid ▸ hm.user, hid.trans h.owner,
      hm.moved.expiresAt.trans h.expiresAt, ?_, fun x hx hx' => ?_, fun x hx hx' => ?_⟩
    · have hkept (hsame : r'.lastSeenAt = r.lastSeenAt) :
          r'.lastSeenAt = issuedAt ∨ ∃ x ∈ mid ++ [⟨now, op, .ok result, op.changes s result, true⟩],
            x.Resolves k ∧ x.time = r'.lastSeenAt := by
        rw [hsame]
        exact h.lastSeenAt.imp_right fun ⟨x, hx, hx'⟩ => ⟨x, List.mem_append_left _ hx, hx'⟩
      rcases hm.moved.lastSeenAt with hsame | ⟨hnow, -⟩
      · exact hkept hsame
      · rcases hseen with hsame | ⟨p, rfl, hp'⟩
        · exact hkept hsame
        · exact .inr ⟨_, List.mem_append_right _ (List.mem_singleton_self _),
            ⟨rfl, p, rfl, hp'⟩, hnow.symm⟩
    · rcases List.mem_append.mp hx with hx | hx
      · exact hm.moved.revokedAt (h.revoked x hx hx')
      · obtain rfl := List.mem_singleton.mp hx
        rcases hx'.2 with hx' | hx' | hx'
        · exact hchanges (h.owner ▸ hx')
        · exact hrevokes (.inl hx')
        · exact hrevokes (.inr (h.owner ▸ hx'))
    · rcases List.mem_append.mp hx with hx | hx
      · exact hm.moved.rejected (h.rejected x hx hx') (hle x hx)
      · obtain rfl := List.mem_singleton.mp hx
        rcases hresolve hx'.1 with ⟨-, hr⟩ | ⟨p, hp', -⟩
        · exact hm.moved.rejected hr le_rfl
        · rw [show result = .resolved none from Except.ok.inj hx'.2] at hp'
          cases hp'

/-- The transactions of a run. -/
theorem AccountRun.split {s₀ : Accounts} {evs pre post : List AccountEvent} {e : AccountEvent}
    (h : AccountRun s₀ evs s) (he : evs = pre ++ e :: post) :
    ∃ s₁ s₂, AccountRun s₀ pre s₁ ∧ AccountStep s₁ e s₂ ∧ ∀ x ∈ pre, x.time ≤ e.time := by
  induction h generalizing post with
  | start => simp at he
  | step hrun hstep hle ih =>
    rcases List.eq_nil_or_concat post with rfl | ⟨post, x, rfl⟩
    · obtain ⟨rfl, hx⟩ := List.append_inj' he rfl
      obtain rfl := List.singleton_inj.mp hx
      exact ⟨_, _, hrun, hstep, hle⟩
    · rw [List.concat_eq_append, ← List.cons_append, ← List.append_assoc] at he
      exact ih (List.append_inj' he rfl).1

/-- **A session that was issued is tracked** from there on. -/
theorem AccountRun.tracked {s₀ : Accounts} {evs pre mid : List AccountEvent} {e : AccountEvent}
    {userId : ℕ} {csrfToken : List Char} (h : AccountRun s₀ evs s) (he : evs = pre ++ e :: mid)
    (hop : e.operation = .issue userId token csrfToken) (hcommitted : e.committed = true) :
    ∃ k r u, Tracked s token e.time userId k r u mid := by
  induction h generalizing mid with
  | start => simp at he
  | step hrun hstep hle ih =>
    rcases List.eq_nil_or_concat mid with rfl | ⟨mid, x, rfl⟩
    · obtain ⟨rfl, hx⟩ := List.append_inj' he rfl
      obtain rfl := List.singleton_inj.mp hx
      cases hstep with
      | commit hp =>
        simp only at hop
        subst hop
        exact tracked_issue hp
      | rollback _ => cases hcommitted
      | refuse _ => cases hcommitted
    · rw [List.concat_eq_append, ← List.cons_append, ← List.append_assoc] at he
      obtain ⟨rfl, hx⟩ := List.append_inj' he rfl
      obtain rfl := List.singleton_inj.mp hx
      obtain ⟨k, r, u, htracked⟩ := ih rfl
      rw [List.concat_eq_append]
      exact ⟨k, htracked.step hstep fun x hx =>
        hle x (List.mem_append_right _ (List.mem_cons_of_mem _ hx))⟩

/-- **How long a session is valid.**  A token that resolves, after it was issued and `mid`
happened, was issued less than 8 hours ago; less than an hour ago it was issued or resolved; and
in `mid` it was neither revoked nor rejected, and its user's role, status and password were not
changed. -/
theorem AccountRun.session_valid {s₀ : Accounts} {evs pre mid post : List AccountEvent}
    {issued resolved : AccountEvent} {userId : ℕ} {csrfToken : List Char} {p : SessionPrincipal}
    (h : AccountRun s₀ evs s) (he : evs = pre ++ issued :: mid ++ resolved :: post)
    (hissued : issued.operation = .issue userId token csrfToken)
    (hcommitted : issued.committed = true)
    (hresolved : resolved.operation = .resolve (some token))
    (hp : resolved.outcome = .ok (.resolved (some p))) :
    p.userId = userId ∧ resolved.time < issued.time + minutes (8 * 60) ∧
      (resolved.time < issued.time + minutes 60 ∨
        ∃ e ∈ mid, e.Resolves p.sessionId ∧ resolved.time < e.time + minutes 60) ∧
      ∀ e ∈ mid, ¬e.Revokes p.sessionId userId ∧ ¬e.Rejects token := by
  obtain ⟨s₁, s₂, hrun, hstep, hle⟩ := h.split he
  obtain ⟨k, r, u, ht⟩ := hrun.tracked rfl hissued hcommitted
  have hperform : ∃ s', performOperation s₁ resolved.time (.resolve (some token)) =
      .ok (.resolved (some p), s') := by
    cases hstep with
    | commit hs => exact ⟨_, by rw [← hresolved, hs, Except.ok.inj hp]⟩
    | rollback hs => exact ⟨_, by rw [← hresolved, hs, Except.ok.inj hp]⟩
    | refuse _ => cases hp
  obtain ⟨s', hperform⟩ := hperform
  obtain ⟨_, _, hmoved⟩ := perform_session hperform ht.session ht.user
  obtain ⟨rfl, hid, hrejected⟩ : p.sessionId = k ∧ p.userId = r.userId ∧
      r.rejected u resolved.time = false := by
    rcases hmoved.resolved rfl with ⟨hnone, -⟩ | ⟨p', hp', hk, hid, hr⟩
    · cases hnone
    · cases hp'
      exact ⟨hk, hid, hr⟩
  have hvalid : ¬(r.revokedAt.isSome ∨ r.expiresAt ≤ resolved.time ∨
      r.lastSeenAt + sessionInactivityTimeout ≤ resolved.time ∨ u.isActive = false) := by
    rw [← rejected_iff, hrejected]
    exact Bool.false_ne_true
  refine ⟨hid.trans ht.owner, ?_, ?_, fun e hmem => ⟨fun hrevokes => ?_, fun hrejects => ?_⟩⟩
  · by_contra hexpired
    refine hvalid (.inr (.inl ?_))
    rw [ht.expiresAt]
    exact Nat.le_of_not_lt hexpired
  · have hseen : resolved.time < r.lastSeenAt + sessionInactivityTimeout := by
      by_contra hinactive
      exact hvalid (.inr (.inr (.inl (Nat.le_of_not_lt hinactive))))
    rcases ht.lastSeenAt with hsame | ⟨e, hmem, hresolves, htime⟩
    · exact .inl (hsame ▸ hseen)
    · exact .inr ⟨e, hmem, hresolves, htime ▸ hseen⟩
  · exact hvalid (.inl (ht.revoked e hmem hrevokes))
  · have hle' := hle e (List.mem_append_right _ (List.mem_cons_of_mem _ hmem))
    rw [rejected_mono (ht.rejected e hmem hrejects) hle'] at hrejected
    cases hrejected

end Runs

/-- A session is issued, and resolved twice, 50 minutes apart. -/
def anaSession : List (ℕ × AccountOperation) :=
  [(0, .issue 1 ['t'] ['c']), (minutes 50, .resolve (some ['t'])),
    (minutes 100, .resolve (some ['t']))]

def anaPrincipal : SessionPrincipal := ⟨1, 1, ['a', 'n', 'a'], .admin, false, ['c']⟩

def anaIssued : AccountEvent :=
  ⟨0, .issue 1 ['t'] ['c'], .ok (.issued ⟨['t'], ['c'], minutes 480⟩), none, true⟩

def anaResolved (now : ℕ) : AccountEvent :=
  ⟨now, .resolve (some ['t']), .ok (.resolved (some anaPrincipal)), none, true⟩

/-- The second resolution succeeds because of the first. -/
theorem AccountRun.session_valid_ana :
    letI := Unicode.ascii
    letI := PasswordHasher.plain
    letI := TokenHasher.plain
    (commitOperations anaAccounts anaSession).1 =
        [anaIssued, anaResolved (minutes 50), anaResolved (minutes 100)] ∧
      (minutes 100 < 0 + minutes 60 ∨ ∃ e ∈ [anaResolved (minutes 50)],
        e.Resolves 1 ∧ minutes 100 < e.time + minutes 60) := by
  let _ := Unicode.ascii
  let _ := PasswordHasher.plain
  let _ := TokenHasher.plain
  have hevs : (commitOperations anaAccounts anaSession).1 =
      [] ++ anaIssued :: [anaResolved (minutes 50)] ++ anaResolved (minutes 100) :: [] := by
    decide
  have hstart : AccountRun anaAccounts [] anaAccounts := .start
  have hrun := hstart.commits (by simp) (by decide : anaSession.Pairwise fun x y => x.1 ≤ y.1)
  exact ⟨hevs, (AccountRun.session_valid hrun hevs rfl rfl rfl rfl).2.2.1⟩

end PalworldManager
