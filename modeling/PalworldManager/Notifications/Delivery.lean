/-
# The delivery of notifications

Any number of dispatchers (`DiscordNotificationDispatcher.process_next`) over one table of
events, any of which may die at any point, and reconciliations at any time.  A step is one
transaction, one call of the webhook, or the death of a dispatcher; between a call and its
result anything may happen, so that a result may come after the event was opened again, and
after another dispatcher claimed it.

What one step does to one event is said once (`Step.moved`), and so is what it does to the
calls of the webhook that are still to come (`Step.calls_le`); the invariant and the theorem
about all runs go by these.
-/

import PalworldManager.Notifications.Service

namespace PalworldManager

open Effects

/-- A dispatcher: between two events, or with an event that it claimed, before or after the
call of the webhook. -/
inductive Dispatcher where
  | idle
  | claimed (id : ℕ) (message : DiscordMessage) (attemptedAt : ℕ)
  | called (id : ℕ) (attemptedAt : ℕ)
  deriving DecidableEq, Repr

/-- Whether a dispatcher is to call the webhook for an event. -/
def Dispatcher.isClaimed (id : ℕ) : Dispatcher → Bool
  | .claimed i _ _ => i == id
  | _ => false

/-- How `webhook.send` ends. -/
inductive SendResult where
  | sent
  | error (kind : DiscordErrorKind)
  | exception
  deriving DecidableEq, Repr

/-- The kind that `process_next` records. -/
def SendResult.kind : SendResult → Option DiscordErrorKind
  | .sent => none
  | .error kind => some kind
  | .exception => some .unavailable

/-- The transaction with which `process_next` ends. -/
def recordResult (events : Table NotificationEvent) (id : ℕ) (r : SendResult) (attemptedAt : ℕ) :
    Except FinishError (Table NotificationEvent) :=
  match r.kind with
  | none => finishSuccess events id attemptedAt
  | some kind => finishFailure events id kind attemptedAt

/-- The events, and the dispatchers of all processes. -/
structure Outbox where
  events : Table NotificationEvent
  dispatchers : List Dispatcher

namespace Outbox

/-- What happens in a step. -/
inductive Label where
  | enqueued
  | claimed (id : ℕ)
  | passed
  | called (id : ℕ) (message : DiscordMessage)
  | finished (id : ℕ) (result : SendResult)
  | crashed
  | reconciled (r : NotificationReconciliation)
  deriving DecidableEq, Repr

/-- The steps of the system. -/
inductive Step [Calendar] : Outbox → Label → Outbox → Prop
  | enqueue (s : Outbox) (eventType : NotificationType) (jobId : Option ℕ)
      (createdAt updatedAt : ℕ) :
      Step s .enqueued
        { s with events := enqueueDiscordNotification s.events eventType jobId createdAt updatedAt }
  | enqueueTest (s : Outbox) (createdAt updatedAt : ℕ) :
      Step s .enqueued { s with events := enqueueDiscordTest s.events createdAt updatedAt }
  | claim (s : Outbox) (d now id : ℕ) (event : NotificationEvent)
      (events : Table NotificationEvent) (hd : s.dispatchers[d]? = some .idle)
      (h : claimNextNotification s.events now = (some (id, event), events)) :
      Step s (.claimed id)
        ⟨events, s.dispatchers.set d (.claimed id (renderDiscordMessage id event) now)⟩
  | pass (s : Outbox) (d now : ℕ) (events : Table NotificationEvent)
      (hd : s.dispatchers[d]? = some .idle)
      (h : claimNextNotification s.events now = (none, events)) :
      Step s .passed { s with events }
  | call (s : Outbox) (d id attemptedAt : ℕ) (message : DiscordMessage)
      (hd : s.dispatchers[d]? = some (.claimed id message attemptedAt)) :
      Step s (.called id message) ⟨s.events, s.dispatchers.set d (.called id attemptedAt)⟩
  | finish (s : Outbox) (d id attemptedAt : ℕ) (r : SendResult)
      (events : Table NotificationEvent) (hd : s.dispatchers[d]? = some (.called id attemptedAt))
      (h : recordResult s.events id r attemptedAt = .ok events) :
      Step s (.finished id r) ⟨events, s.dispatchers.set d .idle⟩
  | crash (s : Outbox) (d : ℕ) : Step s .crashed ⟨s.events, s.dispatchers.set d .idle⟩
  | reconcile (s : Outbox) (now : ℕ) :
      Step s (.reconciled (reconcileSendingNotifications s.events now).1)
        { s with events := (reconcileSendingNotifications s.events now).2 }

/-- The runs from a state. -/
inductive Run [Calendar] (s₀ : Outbox) : List Label → Outbox → Prop
  | start : Run s₀ [] s₀
  | step {tr : List Label} {s s' : Outbox} {l : Label} : Run s₀ tr s → Step s l s' →
      Run s₀ (tr ++ [l]) s'

/-- No event, and `n` dispatchers that have none. -/
def initial (n : ℕ) : Outbox := ⟨Table.empty, List.replicate n .idle⟩

/-- How often the webhook was called for an event. -/
def calls (id : ℕ) (tr : List Label) : ℕ :=
  tr.countP fun
    | .called i _ => i == id
    | _ => false

/-- How many dispatchers are to call the webhook for an event. -/
def dueCalls (id : ℕ) (s : Outbox) : ℕ := s.dispatchers.countP (Dispatcher.isClaimed id)

/-- How many attempts an event had; none, before there is one. -/
def attemptsOf (id : ℕ) (s : Outbox) : ℕ := (s.events.get id).elim 0 NotificationEvent.attempts

/-- What a step may make of an event. -/
inductive Moved (l : Label) (id : ℕ) (e e' : NotificationEvent) : Prop
  | same (hl : l ≠ .claimed id) (h : e' = e)
  | claimed (hl : l = .claimed id) (h : e.status = .pending)
      (hlt : e.attempts < maxNotificationAttempts) (he : e'.status = .sending)
      (ha : e'.attempts = e.attempts + 1)
  | sent (hl : l ≠ .claimed id) (h : e.status = .sending) (he : e'.status = .sent)
      (ha : e'.attempts = e.attempts)
  | retried (hl : l ≠ .claimed id) (h : e.status = .sending)
      (hlt : e.attempts < maxNotificationAttempts) (he : e'.status = .pending)
      (ha : e'.attempts = e.attempts)
  | failed (hl : l ≠ .claimed id) (h : e.status = .sending) (he : e'.status = .failed)
      (ha : e'.attempts = e.attempts)
      (hwhy : (∃ kind, l = .finished id (.error kind) ∧ kind.transient = false) ∨
        maxNotificationAttempts ≤ e.attempts)

section Events

variable {events : Table NotificationEvent} {e e' : NotificationEvent} {id i now : ℕ}

/-- **What a claim does**: nothing, or one pending event with attempts left is being sent. -/
theorem claimNextNotification_cases (events : Table NotificationEvent) (now : ℕ) :
    claimNextNotification events now = (none, events) ∨
      ∃ id e, events.get id = some e ∧ e.status = .pending ∧
        e.attempts < maxNotificationAttempts ∧
        claimNextNotification events now =
          (some (id, e.claim now), events.mapRows fun i event =>
            if i = id ∧ event.status = .pending then event.claim now else event) := by
  rw [claimNextNotification]
  cases heligible : eligibleNotification events now with
  | none => exact .inl rfl
  | some id =>
    right
    obtain ⟨⟨i, e⟩, hhead, rfl⟩ := Option.map_eq_some_iff.mp heligible
    obtain ⟨hget, hp⟩ := Table.mem_select.mp (List.mem_of_mem_head? hhead)
    rw [NotificationEvent.isEligible] at hp
    simp only [Bool.and_eq_true, beq_iff_eq, decide_eq_true_eq] at hp
    refine ⟨i, e, hget, hp.1.1.2, hp.1.2, ?_⟩
    simp [hget, hp.1.1.2]

/-- **All that a reconciliation can do** with an event. -/
theorem reconcile_cases (now : ℕ) (e : NotificationEvent) :
    e.reconcile now = e ∨ e.status = .sending ∧ (e.reconcile now).attempts = e.attempts ∧
      (e.attempts < maxNotificationAttempts ∧ (e.reconcile now).status = .pending ∨
        maxNotificationAttempts ≤ e.attempts ∧ (e.reconcile now).status = .failed) := by
  rw [NotificationEvent.reconcile]
  split_ifs with hsending hlt
  · exact .inr ⟨hsending.2, rfl, .inl ⟨hlt, rfl⟩⟩
  · exact .inr ⟨hsending.2, rfl, .inr ⟨Nat.not_lt.mp hlt, rfl⟩⟩
  · exact .inl rfl

/-- **All that a failure can do** with an event. -/
theorem fail_cases {kind : DiscordErrorKind} {failedAt : ℕ}
    (h : e.fail kind failedAt = .ok e') :
    e' = e ∨ e.status = .sending ∧ e'.attempts = e.attempts ∧
      (e.attempts < maxNotificationAttempts ∧ e'.status = .pending ∨
        e'.status = .failed ∧ (kind.transient = false ∨ maxNotificationAttempts ≤ e.attempts)) := by
  rw [NotificationEvent.fail] at h
  by_cases hsending : e.status = .sending
  · rw [if_neg (not_not_intro hsending)] at h
    simp only [NotificationEvent.delayIndex] at h
    by_cases hretry : (kind.transient && decide (e.attempts < maxNotificationAttempts)) = true
    · rw [if_pos hretry] at h
      rw [Bool.and_eq_true, decide_eq_true_eq] at hretry
      simp only at h
      split at h
      · obtain rfl := Except.ok.inj h
        exact .inr ⟨hsending, rfl, .inl ⟨hretry.2, rfl⟩⟩
      · cases h
    · rw [if_neg hretry] at h
      obtain rfl := Except.ok.inj h
      refine .inr ⟨hsending, rfl, .inr ⟨rfl, ?_⟩⟩
      rw [Bool.and_eq_true, not_and_or, decide_eq_true_eq, Nat.not_lt] at hretry
      exact hretry.imp_left (by simp)
  · rw [if_pos hsending] at h
    exact .inl (Except.ok.inj h).symm

/-- **What a result does**: it touches one event, if that is being sent. -/
theorem recordResult_cases {r : SendResult} {attemptedAt : ℕ} {events' : Table NotificationEvent}
    (h : recordResult events id r attemptedAt = .ok events') :
    ∃ e f, events.get id = some e ∧ events' = events.modify id f ∧
      (f e = e ∨ e.status = .sending ∧ (f e).attempts = e.attempts ∧
        ((f e).status = .sent ∨
          e.attempts < maxNotificationAttempts ∧ (f e).status = .pending ∨
          (f e).status = .failed ∧
            ((∃ kind, r = .error kind ∧ kind.transient = false) ∨
              maxNotificationAttempts ≤ e.attempts))) := by
  rw [recordResult] at h
  cases hkind : r.kind with
  | none =>
    rw [hkind] at h
    simp only [finishSuccess] at h
    cases hget : events.get id with
    | none =>
      rw [hget] at h
      cases h
    | some e =>
      rw [hget] at h
      refine ⟨e, fun event => event.succeed attemptedAt, rfl, (Except.ok.inj h).symm, ?_⟩
      simp only [NotificationEvent.succeed]
      split_ifs with hsending
      · exact .inl rfl
      · exact .inr ⟨not_not.mp hsending, rfl, .inl rfl⟩
  | some kind =>
    rw [hkind] at h
    simp only [finishFailure] at h
    cases hget : events.get id with
    | none =>
      rw [hget] at h
      cases h
    | some e =>
      rw [hget] at h
      cases hfail : e.fail kind attemptedAt with
      | error err =>
        simp only [hfail] at h
        cases h
      | ok e' =>
        simp only [hfail] at h
        refine ⟨e, fun _ => e', rfl, (Except.ok.inj h).symm, ?_⟩
        refine (fail_cases hfail).imp_right fun ⟨hsending, ha, hwhat⟩ => ⟨hsending, ha, .inr ?_⟩
        refine hwhat.imp_right fun ⟨hfailed, hwhy⟩ => ⟨hfailed, hwhy.imp_left fun hperm => ?_⟩
        cases r with
        | sent => cases hkind
        | error kind' =>
          obtain rfl := Option.some.inj hkind
          exact ⟨kind', rfl, hperm⟩
        | exception =>
          obtain rfl := Option.some.inj hkind
          cases hperm

end Events

section Steps

variable [Calendar] {s s' s₀ : Outbox} {l : Label} {tr : List Label} {id : ℕ}
  {e e' : NotificationEvent}

/-- **What a step does to an event.** -/
theorem Step.moved (h : Step s l s') (he : s.events.get id = some e) :
    ∃ e', s'.events.get id = some e' ∧ Moved l id e e' := by
  cases h with
  | enqueue eventType jobId createdAt updatedAt =>
    exact ⟨e, Table.get_add_of_some he, .same (by simp) rfl⟩
  | enqueueTest createdAt updatedAt =>
    refine ⟨e, ?_, .same (by simp) rfl⟩
    simp only [enqueueDiscordTest]
    split_ifs
    · exact he
    · exact Table.get_add_of_some he
  | claim d now i event events hd h =>
    rcases claimNextNotification_cases s.events now with hnone | ⟨j, a, hget, hpending, hlt, hclaim⟩
    · rw [hnone] at h
      cases h
    · rw [hclaim, Prod.mk.injEq, Option.some.injEq, Prod.mk.injEq] at h
      obtain ⟨⟨rfl, -⟩, rfl⟩ := h
      simp only [Table.get_mapRows, he, Option.map_some]
      refine ⟨_, rfl, ?_⟩
      by_cases hid : id = j
      · subst hid
        obtain rfl : e = a := Option.some.inj (he.symm.trans hget)
        rw [if_pos ⟨rfl, hpending⟩]
        exact .claimed rfl hpending hlt rfl rfl
      · rw [if_neg fun hboth => hid hboth.1]
        exact .same (fun hl => hid (Label.claimed.inj hl).symm) rfl
  | pass d now events hd h =>
    rcases claimNextNotification_cases s.events now with hnone | ⟨j, a, -, -, -, hclaim⟩
    · rw [hnone] at h
      obtain rfl := (Prod.mk.inj h).2
      exact ⟨e, he, .same (by simp) rfl⟩
    · rw [hclaim] at h
      cases h
  | call d i attemptedAt message hd => exact ⟨e, he, .same (by simp) rfl⟩
  | finish d i attemptedAt r events hd h =>
    obtain ⟨a, f, hget, rfl, hwhat⟩ := recordResult_cases h
    by_cases hid : id = i
    · subst hid
      obtain rfl : e = a := Option.some.inj (he.symm.trans hget)
      refine ⟨f e, by simp [he], ?_⟩
      rcases hwhat with hsame | ⟨hsending, ha, hsent | ⟨hlt, hpending⟩ | ⟨hfailed, hwhy⟩⟩
      · exact .same (by simp) hsame
      · exact .sent (by simp) hsending hsent ha
      · exact .retried (by simp) hsending hlt hpending ha
      · refine .failed (by simp) hsending hfailed ha (hwhy.imp_left ?_)
        rintro ⟨kind, rfl, hperm⟩
        exact ⟨kind, rfl, hperm⟩
    · refine ⟨e, ?_, .same (by simp) rfl⟩
      rwa [Table.get_modify_ne _ hid]
  | crash d => exact ⟨e, he, .same (by simp) rfl⟩
  | reconcile now =>
    refine ⟨e.reconcile now, by simp [reconcileSendingNotifications, he], ?_⟩
    rcases reconcile_cases now e with hsame | ⟨hsending, ha, ⟨hlt, hpending⟩ | ⟨hge, hfailed⟩⟩
    · exact .same (by simp) hsame
    · exact .retried (by simp) hsending hlt hpending ha
    · exact .failed (by simp) hsending hfailed ha (.inr hge)

/-- **What a step creates** is to be sent, and was not yet. -/
theorem Step.created (h : Step s l s') (hnone : s.events.get id = none)
    (he' : s'.events.get id = some e') : e'.status = .pending ∧ e'.attempts = 0 := by
  have hadd {eventType : NotificationType} {jobId : Option ℕ} {createdAt updatedAt : ℕ}
      (he' : (enqueueDiscordNotification s.events eventType jobId createdAt updatedAt).get id =
        some e') : e'.status = .pending ∧ e'.attempts = 0 := by
    rw [enqueueDiscordNotification, Table.get_add, hnone] at he'
    split_ifs at he'
    obtain rfl := Option.some.inj he'
    exact ⟨rfl, rfl⟩
  cases h with
  | enqueue eventType jobId createdAt updatedAt => exact hadd he'
  | enqueueTest createdAt updatedAt =>
    simp only [enqueueDiscordTest] at he'
    split_ifs at he'
    · rw [hnone] at he'
      cases he'
    · exact hadd he'
  | claim d now i event events hd h =>
    rcases claimNextNotification_cases s.events now with hfree | ⟨j, a, -, -, -, hclaim⟩
    · rw [hfree] at h
      cases h
    · rw [hclaim, Prod.mk.injEq] at h
      obtain ⟨-, rfl⟩ := h
      simp [hnone] at he'
  | pass d now events hd h =>
    rcases claimNextNotification_cases s.events now with hfree | ⟨j, a, -, -, -, hclaim⟩
    · rw [hfree] at h
      obtain rfl := (Prod.mk.inj h).2
      simp [hnone] at he'
    · rw [hclaim] at h
      cases h
  | call d i attemptedAt message hd => simp [hnone] at he'
  | finish d i attemptedAt r events hd h =>
    obtain ⟨a, f, hget, rfl, -⟩ := recordResult_cases h
    simp [Table.get_modify, hnone] at he'
  | crash d => simp [hnone] at he'
  | reconcile now => simp [reconcileSendingNotifications, hnone] at he'

omit [Calendar] in
/-- A dispatcher that goes on is counted anew. -/
theorem dueCalls_set {d : ℕ} {x y : Dispatcher} (hd : s.dispatchers[d]? = some x)
    (events : Table NotificationEvent) :
    dueCalls id ⟨events, s.dispatchers.set d y⟩ + (if x.isClaimed id = true then 1 else 0) =
      dueCalls id s + if y.isClaimed id = true then 1 else 0 := by
  obtain ⟨hlt, rfl⟩ := List.getElem?_eq_some_iff.mp hd
  have hpos : (if s.dispatchers[d].isClaimed id = true then 1 else 0) ≤ dueCalls id s := by
    split_ifs with hclaimed
    · exact List.countP_pos_iff.mpr ⟨_, List.getElem_mem hlt, hclaimed⟩
    · exact Nat.zero_le _
  rw [dueCalls, dueCalls, List.countP_set hlt]
  rw [dueCalls] at hpos
  omega

/-- **What a step does to the calls**: only a claim makes a call due. -/
theorem Step.calls_le (h : Step s l s') (id : ℕ) (tr : List Label) :
    calls id (tr ++ [l]) + dueCalls id s' ≤
      calls id tr + dueCalls id s + if l = .claimed id then 1 else 0 := by
  have hcalls (l : Label) : calls id (tr ++ [l]) = calls id tr + calls id [l] := List.countP_append
  rw [hcalls]
  cases h with
  | enqueue eventType jobId createdAt updatedAt => exact Nat.le_refl _
  | enqueueTest createdAt updatedAt => exact Nat.le_refl _
  | claim d now i event events hd h =>
    have hset := @dueCalls_set s id d .idle
      (.claimed i (renderDiscordMessage i event) now) hd events
    have hzero : calls id [.claimed i] = 0 := rfl
    simp only [Dispatcher.isClaimed, beq_iff_eq, Bool.false_eq_true, if_false] at hset
    simp only [Label.claimed.injEq]
    omega
  | pass d now events hd h => exact Nat.le_refl _
  | call d i attemptedAt message hd =>
    have hset := @dueCalls_set s id d _ (.called i attemptedAt) hd s.events
    have hone : calls id [.called i message] = if i = id then 1 else 0 := by
      simp [calls, List.countP_cons]
    simp only [Dispatcher.isClaimed, beq_iff_eq, Bool.false_eq_true, if_false] at hset
    omega
  | finish d i attemptedAt r events hd h =>
    have hset := @dueCalls_set s id d _ .idle hd events
    have hzero : calls id [.finished i r] = 0 := rfl
    simp only [Dispatcher.isClaimed, Bool.false_eq_true, if_false] at hset
    omega
  | crash d =>
    have hzero : calls id [.crashed] = 0 := rfl
    cases hd : s.dispatchers[d]? with
    | none =>
      have hsame : dueCalls id ⟨s.events, s.dispatchers⟩ = dueCalls id s := rfl
      rw [List.set_eq_of_length_le (List.getElem?_eq_none_iff.mp hd)]
      omega
    | some x =>
      have hset := @dueCalls_set s id d x .idle hd s.events
      simp only [Dispatcher.isClaimed, Bool.false_eq_true, if_false] at hset
      omega
  | reconcile now => exact Nat.le_refl _

end Steps

/-- What holds of the events after a run. -/
structure Inv (tr : List Label) (s : Outbox) : Prop where
  calls : ∀ id, calls id tr + dueCalls id s ≤ attemptsOf id s
  attempts : ∀ id e, s.events.get id = some e → e.attempts ≤ maxNotificationAttempts
  pending : ∀ id e, s.events.get id = some e → e.status = .pending →
    e.attempts < maxNotificationAttempts
  sending : ∀ id e, s.events.get id = some e → e.status = .sending → 1 ≤ e.attempts

section Runs

variable [Calendar] {s s' s₀ : Outbox} {l : Label} {tr tr' : List Label} {id n : ℕ}
  {e e' : NotificationEvent}

/-- A claim counts as an attempt. -/
theorem Step.attemptsOf_ge (h : Step s l s') (id : ℕ) :
    (attemptsOf id s + if l = .claimed id then 1 else 0) ≤ attemptsOf id s' := by
  cases hget : s.events.get id with
  | none =>
    have hl : l ≠ .claimed id := by
      rintro rfl
      cases h with
      | claim d now _ event events hd h =>
        rcases claimNextNotification_cases s.events now with hfree | ⟨j, a, hget', -, -, hclaim⟩
        · rw [hfree] at h
          cases h
        · rw [hclaim, Prod.mk.injEq, Option.some.injEq, Prod.mk.injEq] at h
          obtain ⟨⟨rfl, -⟩, -⟩ := h
          rw [hget] at hget'
          cases hget'
    have hzero : attemptsOf id s = 0 := by rw [attemptsOf, hget, Option.elim_none]
    rw [if_neg hl]
    omega
  | some e =>
    obtain ⟨e', he', hmoved⟩ := h.moved hget
    rw [attemptsOf, attemptsOf, hget, he', Option.elim_some, Option.elim_some]
    cases hmoved with
    | same hl h => rw [if_neg hl, h, Nat.add_zero]
    | claimed hl _ _ _ ha => rw [if_pos hl, ha]
    | sent hl _ _ ha => rw [if_neg hl, ha, Nat.add_zero]
    | retried hl _ _ _ ha => rw [if_neg hl, ha, Nat.add_zero]
    | failed hl _ _ ha _ => rw [if_neg hl, ha, Nat.add_zero]

/-- **A step keeps the invariant.** -/
theorem Inv.step (hI : Inv tr s) (h : Step s l s') : Inv (tr ++ [l]) s' := by
  constructor
  · intro id
    have hcalls := h.calls_le id tr
    have hattempts := h.attemptsOf_ge id
    have hbefore := hI.calls id
    omega
  · intro id e' he'
    cases hget : s.events.get id with
    | none =>
      rw [(h.created hget he').2]
      exact Nat.zero_le _
    | some e =>
      have hbefore := hI.attempts id e hget
      obtain ⟨_, he'', hmoved⟩ := h.moved hget
      obtain rfl := Option.some.inj (he'.symm.trans he'')
      cases hmoved with
      | same _ h => rwa [h]
      | claimed _ _ hlt _ ha => omega
      | sent _ _ _ ha => omega
      | retried _ _ _ _ ha => omega
      | failed _ _ _ ha _ => omega
  · intro id e' he' hpending
    cases hget : s.events.get id with
    | none =>
      rw [(h.created hget he').2]
      decide
    | some e =>
      obtain ⟨_, he'', hmoved⟩ := h.moved hget
      obtain rfl := Option.some.inj (he'.symm.trans he'')
      cases hmoved with
      | same _ h => exact h ▸ hI.pending id e hget (h ▸ hpending)
      | claimed _ _ _ he _ => rw [he] at hpending; cases hpending
      | sent _ _ he _ => rw [he] at hpending; cases hpending
      | retried _ _ hlt _ ha => omega
      | failed _ _ he _ _ => rw [he] at hpending; cases hpending
  · intro id e' he' hsending
    cases hget : s.events.get id with
    | none =>
      rw [(h.created hget he').1] at hsending
      cases hsending
    | some e =>
      obtain ⟨_, he'', hmoved⟩ := h.moved hget
      obtain rfl := Option.some.inj (he'.symm.trans he'')
      cases hmoved with
      | same _ h => exact h ▸ hI.sending id e hget (h ▸ hsending)
      | claimed _ _ _ _ ha => omega
      | sent _ _ he _ => rw [he] at hsending; cases hsending
      | retried _ _ _ he _ => rw [he] at hsending; cases hsending
      | failed _ _ he _ _ => rw [he] at hsending; cases hsending

omit [Calendar] in
/-- At the start there is nothing to keep. -/
theorem inv_initial (n : ℕ) : Inv [] (initial n) := by
  have hnone (id : ℕ) (e : NotificationEvent) : (initial n).events.get id ≠ some e := nofun
  refine ⟨fun id => ?_, fun id e he => absurd he (hnone id e), fun id e he => absurd he (hnone id e),
    fun id e he => absurd he (hnone id e)⟩
  have hidle : dueCalls id (initial n) = 0 := by
    rw [dueCalls, initial, List.countP_replicate]
    rfl
  rw [hidle]
  exact Nat.zero_le _

/-- **The invariant holds in every run.** -/
theorem Run.inv (h : Run (initial n) tr s) : Inv tr s := by
  induction h with
  | start => exact inv_initial n
  | step _ hstep ih => exact ih.step hstep

/-- An event that is delivered, or given up, stays so. -/
theorem Run.settled (h : Run s tr s') (he : s.events.get id = some e)
    (hsettled : e.status = .sent ∨ e.status = .failed) :
    ∃ e', s'.events.get id = some e' ∧ e'.status = e.status := by
  induction h with
  | start => exact ⟨e, he, rfl⟩
  | step _ hstep ih =>
    obtain ⟨e₁, he₁, hstatus⟩ := ih
    obtain ⟨e₂, he₂, hmoved⟩ := hstep.moved he₁
    refine ⟨e₂, he₂, ?_⟩
    rw [← hstatus] at hsettled
    cases hmoved with
    | same _ h => rw [h, hstatus]
    | claimed _ h => rw [h] at hsettled; simp at hsettled
    | sent _ h => rw [h] at hsettled; simp at hsettled
    | retried _ h => rw [h] at hsettled; simp at hsettled
    | failed _ h => rw [h] at hsettled; simp at hsettled

/-- Why an event that fails does. -/
theorem Step.failed (h : Step s l s') (he : s.events.get id = some e) (hopen : e.status ≠ .failed)
    (he' : s'.events.get id = some e') (hfailed : e'.status = .failed) :
    (∃ kind, l = .finished id (.error kind) ∧ kind.transient = false) ∨
      maxNotificationAttempts ≤ e'.attempts := by
  obtain ⟨_, he'', hmoved⟩ := h.moved he
  obtain rfl := Option.some.inj (he'.symm.trans he'')
  cases hmoved with
  | same _ h => exact absurd (h ▸ hfailed) hopen
  | claimed _ _ _ he _ => rw [he] at hfailed; cases hfailed
  | sent _ _ he _ => rw [he] at hfailed; cases hfailed
  | retried _ _ _ he _ => rw [he] at hfailed; cases hfailed
  | failed _ _ _ ha hwhy => exact ha ▸ hwhy

omit [Calendar] in
/-- The delay of an event that was claimed, and has attempts left, is in the table. -/
theorem delayIndex_lt {kind : DiscordErrorKind} {i : ℤ} (hattempts : 1 ≤ e.attempts)
    (h : e.delayIndex kind = some i) : 0 ≤ i ∧ i < notificationRetryDelays.length := by
  rw [NotificationEvent.delayIndex] at h
  split_ifs at h with hretry
  obtain rfl := Option.some.inj h
  rw [Bool.and_eq_true, decide_eq_true_eq, maxNotificationAttempts] at hretry
  have hlength : (notificationRetryDelays.length : ℤ) = 2 := rfl
  omega

/-- **The delivery of an event**, whatever the processes do, in whatever order, and wherever
they die. -/
theorem Run.delivery (h : Run (initial n) tr s) (he : s.events.get id = some e) :
    (e.attempts ≤ maxNotificationAttempts ∧ calls id tr ≤ maxNotificationAttempts) ∧
      (e.status = .pending → e.attempts < maxNotificationAttempts) ∧
      (e.status = .sending → ∀ kind i, e.delayIndex kind = some i →
        0 ≤ i ∧ i < notificationRetryDelays.length) ∧
      (e.status = .sent ∨ e.status = .failed → ∀ tr' s', Run s tr' s' →
        ∃ e', s'.events.get id = some e' ∧ e'.status = e.status) ∧
      (e.status ≠ .failed → ∀ l s' e', Step s l s' → s'.events.get id = some e' →
        e'.status = .failed →
          (∃ kind, l = .finished id (.error kind) ∧ kind.transient = false) ∨
            e'.attempts = maxNotificationAttempts) := by
  have hI := h.inv
  have hattempts := hI.attempts id e he
  have hcalls := hI.calls id
  rw [attemptsOf, he, Option.elim_some] at hcalls
  refine ⟨⟨hattempts, by omega⟩, hI.pending id e he,
    fun hsending kind i => delayIndex_lt (hI.sending id e he hsending),
    fun hsettled tr' s' hrun => hrun.settled he hsettled, ?_⟩
  intro hopen l s' e' hstep he' hfailed
  have hle := (hI.step hstep).attempts id e' he'
  exact (hstep.failed he hopen he' hfailed).imp_right fun hge => Nat.le_antisymm hle hge

end Runs

/-- Noon of 21 August 2026, the only moment this calendar has a text for. -/
@[reducible]
def noonCalendar : Calendar := ⟨fun _ => "2026-08-21 12:00:00 UTC"⟩

/-- An event that was claimed, opened again by a reconciliation and claimed by another
dispatcher, when the first one gets its timeout. -/
theorem Run.delivery_late :
    ∃ tr s e, @Run noonCalendar (initial 2) tr s ∧ s.events.get 1 = some e ∧
      e.status = .pending ∧ e.attempts = 2 ∧ calls 1 tr ≤ maxNotificationAttempts := by
  let _ := noonCalendar
  have h₀ : Run (initial 2) [] (initial 2) := .start
  have h₁ := h₀.step (.enqueue _ .backupFailed none 1787313600000000 1787313600000000)
  have h₂ := h₁.step (.claim _ 0 1787313600000000 1 _ _ rfl rfl)
  have h₃ := h₂.step (.call _ 0 _ _ _ rfl)
  have h₄ := h₃.step (.reconcile _ 1787313601000000)
  have h₅ := h₄.step (.claim _ 1 1787313602000000 1 _ _ rfl rfl)
  have h₆ := h₅.step (.finish _ 0 _ _ (.error .timeout) _ rfl rfl)
  exact ⟨_, _, _, h₆, rfl, rfl, rfl, (Run.delivery h₆ rfl).1.2⟩

end Outbox

end PalworldManager
