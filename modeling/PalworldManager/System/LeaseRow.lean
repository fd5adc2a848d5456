/-
# The lease row

`jobs/heartbeat.py` on its table alone.  Any number of workers start, write heartbeats and give
the lease back, in any order, at non-decreasing moments; a moment is a number of microseconds.
The table has a primary key, and every statement is about one value of it.

The law (`LeaseRun.law`) rests on one invariant: the heartbeat in the row is not before any that
was recorded of its worker, and a row that has gone was given back by the worker it named.
-/

import PalworldManager.System.Runs

namespace PalworldManager

section Model

/-- `WORKER_HEARTBEAT_KEY`. -/
def workerHeartbeatKey : String := "PRIMARY"

/-- `timedelta(seconds=WORKER_LEASE_TIMEOUT_SECONDS)`. -/
def workerLeaseTimeout : ℤ := workerLeaseTimeoutSeconds * 1000000

/-- A row of `worker_heartbeats`. -/
structure LeaseRow where
  key : String
  workerId : WorkerId
  startedAt : ℤ
  heartbeatAt : ℤ
  deriving DecidableEq

/-- The table `worker_heartbeats`. -/
structure LeaseTable where
  rows : List LeaseRow
  nodup : (rows.map LeaseRow.key).Nodup
  deriving DecidableEq

/-- What `record_worker_start` raises. -/
inductive LeaseError where
  | emptyIdentifier
  | workerAlreadyRunning
  deriving DecidableEq, Repr

namespace LeaseTable

/-- The table as it is created. -/
def empty : LeaseTable := ⟨[], List.nodup_nil⟩

/-- `session.get`. -/
def get (t : LeaseTable) (key : String) : Option LeaseRow := t.rows.find? (·.key == key)

/-- `UPDATE … WHERE key = …`. -/
def update (t : LeaseTable) (key : String) (f : LeaseRow → LeaseRow)
    (hf : ∀ r, (f r).key = r.key) : LeaseTable where
  rows := t.rows.map fun r => if r.key = key then f r else r
  nodup := by
    have hkeys : LeaseRow.key ∘ (fun r => if r.key = key then f r else r) = LeaseRow.key := by
      funext r
      rw [Function.comp_apply]
      split_ifs
      · exact hf r
      · rfl
    rw [List.map_map, hkeys]
    exact t.nodup

/-- `INSERT`, of a key that is not there. -/
def insert (t : LeaseTable) (r : LeaseRow) (h : t.get r.key = none) : LeaseTable where
  rows := t.rows ++ [r]
  nodup := by
    rw [List.map_append, List.map_singleton]
    refine List.nodup_append.mpr ⟨t.nodup, List.nodup_singleton _, ?_⟩
    rintro k hk _ hk' rfl
    obtain ⟨x, hx, rfl⟩ := List.mem_map.mp hk
    have hne := List.find?_eq_none.mp h x hx
    rw [List.mem_singleton.mp hk'] at hne
    exact hne (beq_self_eq_true _)

/-- `DELETE … WHERE`. -/
def delete (t : LeaseTable) (p : LeaseRow → Bool) : LeaseTable where
  rows := t.rows.filter fun r => !p r
  nodup := t.nodup.sublist (List.filter_sublist.map _)

/-- `record_worker_start`. -/
def recordWorkerStart (t : LeaseTable) (workerId : WorkerId) (now : ℤ) :
    Except LeaseError LeaseTable :=
  if workerId = "" then .error .emptyIdentifier
  else
    let staleBefore := now - workerLeaseTimeout
    match h : t.get workerHeartbeatKey with
    | none => .ok (t.insert ⟨workerHeartbeatKey, workerId, now, now⟩ h)
    | some row =>
      if row.workerId = workerId ∨ row.heartbeatAt ≤ staleBefore then
        .ok (t.update workerHeartbeatKey
          (fun r => { r with workerId := workerId, startedAt := now, heartbeatAt := now })
          fun _ => rfl)
      else .error .workerAlreadyRunning

/-- `record_worker_heartbeat`. -/
def recordWorkerHeartbeat (t : LeaseTable) (workerId : WorkerId) (now : ℤ) : Bool × LeaseTable :=
  match t.get workerHeartbeatKey with
  | none => (false, t)
  | some row =>
    if row.workerId ≠ workerId then (false, t)
    else (true, t.update workerHeartbeatKey (fun r => { r with heartbeatAt := now }) fun _ => rfl)

/-- `release_worker_lease`. -/
def releaseWorkerLease (t : LeaseTable) (workerId : WorkerId) : LeaseTable :=
  t.delete fun r => r.key == workerHeartbeatKey && r.workerId == workerId

/-- The worker that the row names. -/
def holder (t : LeaseTable) : Option WorkerId := (t.get workerHeartbeatKey).map LeaseRow.workerId

end LeaseTable

/-- What a worker does with the lease. -/
inductive LeaseOp where
  | start (workerId : WorkerId)
  | heartbeat (workerId : WorkerId)
  | release (workerId : WorkerId)
  deriving DecidableEq

/-- How a transaction on the lease ends. -/
inductive LeaseOutcome where
  | started
  | refused (error : LeaseError)
  | heartbeat (updated : Bool)
  | released
  deriving DecidableEq

/-- A transaction on the lease; one that raises is rolled back. -/
def LeaseTable.perform (t : LeaseTable) (now : ℤ) : LeaseOp → LeaseOutcome × LeaseTable
  | .start w =>
    match t.recordWorkerStart w now with
    | .ok t' => (.started, t')
    | .error e => (.refused e, t)
  | .heartbeat w =>
    let (updated, t') := t.recordWorkerHeartbeat w now
    (.heartbeat updated, t')
  | .release w => (.released, t.releaseWorkerLease w)

/-- A transaction of a run. -/
structure LeaseEntry where
  op : LeaseOp
  time : ℤ
  outcome : LeaseOutcome
  before : LeaseTable
  after : LeaseTable

/-- The worker has started. -/
def LeaseEntry.Starts (e : LeaseEntry) (w : WorkerId) : Prop :=
  e.op = .start w ∧ e.outcome = .started

/-- A start or a heartbeat of the worker was recorded. -/
def LeaseEntry.Records (e : LeaseEntry) (w : WorkerId) : Prop :=
  e.Starts w ∨ e.op = .heartbeat w ∧ e.outcome = .heartbeat true

/-- The runs of any number of workers. -/
inductive LeaseRun : List LeaseEntry → LeaseTable → Prop
  | start : LeaseRun [] .empty
  | step {h t} (op : LeaseOp) (now : ℤ) : LeaseRun h t → (∀ e ∈ h, e.time ≤ now) →
      LeaseRun (h ++ [⟨op, now, (t.perform now op).1, t, (t.perform now op).2⟩])
        (t.perform now op).2

end Model

section Law

/-- The worker that the row named last, if there was a row. -/
def lastHolder (h : List LeaseEntry) : Option WorkerId :=
  (h.filterMap fun e => e.after.holder).getLast?

/-- The worker gave the row back, and there has been none since. -/
def Returned (h : List LeaseEntry) (w : WorkerId) : Prop :=
  ∃ pre e post, h = pre ++ e :: post ∧ e.op = .release w ∧ e.before.holder = some w ∧
    ∀ x ∈ e :: post, x.after.rows = []

/-- What is said of the lease row over a run. -/
structure LeaseLaw (h : List LeaseEntry) : Prop where
  oneRow : ∀ e ∈ h, e.after.rows.length ≤ 1
  handover : ∀ pre e post w w', h = pre ++ e :: post → lastHolder pre = some w →
    e.after.holder = some w' → w ≠ w' → e.Starts w' ∧
      ((∀ x ∈ pre, x.Records w → x.time + workerLeaseTimeout ≤ e.time) ∨ Returned pre w)
  displaced : ∀ pre d mid e post w, h = pre ++ d :: (mid ++ e :: post) →
    d.after.holder ≠ some w → (∀ x ∈ mid, ¬x.Starts w) →
      (e.op = .heartbeat w → e.outcome = .heartbeat false ∧ e.after = e.before) ∧
      (e.op = .release w → e.after = e.before)

/-- The row is that of the key, and its heartbeat is not before any that was recorded of its
worker; a row that has gone was given back. -/
structure LeaseInvariant (h : List LeaseEntry) (t : LeaseTable) : Prop where
  rows : t.rows = (t.get workerHeartbeatKey).toList
  recorded : ∀ r ∈ t.get workerHeartbeatKey, ∀ e ∈ h, e.Records r.workerId → e.time ≤ r.heartbeatAt
  lastHolder : ∀ w, t.holder = some w → lastHolder h = some w
  returned : t.holder = none → ∀ w, PalworldManager.lastHolder h = some w → Returned h w

/-- **What a transaction can do.** -/
inductive LeaseStep (t : LeaseTable) (now : ℤ) : LeaseOp → LeaseOutcome → LeaseTable → Prop
  | taken (w : WorkerId) (t' : LeaseTable) :
      (∀ r ∈ t.get workerHeartbeatKey,
        r.workerId = w ∨ r.heartbeatAt + workerLeaseTimeout ≤ now) →
      t'.rows = [⟨workerHeartbeatKey, w, now, now⟩] → LeaseStep t now (.start w) .started t'
  | refused (w : WorkerId) (e : LeaseError) : LeaseStep t now (.start w) (.refused e) t
  | beaten (w : WorkerId) (r : LeaseRow) (t' : LeaseTable) :
      t.get workerHeartbeatKey = some r → r.workerId = w →
      t'.rows = [{ r with heartbeatAt := now }] →
      LeaseStep t now (.heartbeat w) (.heartbeat true) t'
  | rejected (w : WorkerId) : t.holder ≠ some w →
      LeaseStep t now (.heartbeat w) (.heartbeat false) t
  | returned (w : WorkerId) (t' : LeaseTable) : t.holder = some w → t'.rows = [] →
      LeaseStep t now (.release w) .released t'
  | kept (w : WorkerId) : t.holder ≠ some w → LeaseStep t now (.release w) .released t

variable {h : List LeaseEntry} {t t' : LeaseTable} {now : ℤ} {op : LeaseOp} {r : LeaseRow}
  {outcome : LeaseOutcome} {w : WorkerId}

/-- One more transaction, and the worker that the row names after it. -/
theorem lastHolder_concat (h : List LeaseEntry) (e : LeaseEntry) :
    lastHolder (h ++ [e]) = e.after.holder.or (lastHolder h) := by
  rw [lastHolder, lastHolder, List.filterMap_append, List.getLast?_append]
  cases he : e.after.holder <;> simp [he]

namespace LeaseTable

/-- The rows after `UPDATE`. -/
@[simp]
theorem update_rows {key : String} {f : LeaseRow → LeaseRow} (hf : ∀ r, (f r).key = r.key) :
    (t.update key f hf).rows = t.rows.map fun r => if r.key = key then f r else r := rfl

/-- The rows after `INSERT`. -/
@[simp]
theorem insert_rows (h : t.get r.key = none) : (t.insert r h).rows = t.rows ++ [r] := rfl

/-- The rows after `DELETE`. -/
@[simp]
theorem delete_rows (p : LeaseRow → Bool) : (t.delete p).rows = t.rows.filter fun r => !p r := rfl

/-- What is read under a key has it. -/
theorem key_of_get {key : String} (hget : t.get key = some r) : r.key = key :=
  beq_iff_eq.mp (List.find?_some (p := fun x : LeaseRow => x.key == key) hget)

/-- The row of the key names the holder. -/
theorem holder_of_get (hget : t.get workerHeartbeatKey = some r) : t.holder = some r.workerId := by
  rw [holder, hget, Option.map_some]

/-- A worker starts where the row is missing, its own or stale, and then has the row afresh. -/
theorem recordWorkerStart_eq_ok (hrows : t.rows = (t.get workerHeartbeatKey).toList)
    (h : t.recordWorkerStart w now = .ok t') :
    (∀ r ∈ t.get workerHeartbeatKey,
      r.workerId = w ∨ r.heartbeatAt + workerLeaseTimeout ≤ now) ∧
      t'.rows = [⟨workerHeartbeatKey, w, now, now⟩] := by
  unfold recordWorkerStart at h
  split_ifs at h
  simp only at h
  split at h
  · rename_i hnone
    cases h
    rw [insert_rows]
    rw [hnone] at hrows
    rw [hrows]
    refine ⟨fun r hr => ?_, rfl⟩
    rw [hnone] at hr
    cases hr
  · rename_i row hsome
    split_ifs at h with hstale
    cases h
    rw [hsome] at hrows ⊢
    rw [update_rows, hrows]
    refine ⟨fun r hr => ?_, by simp [key_of_get hsome]⟩
    cases hr
    exact hstale.imp_right fun hle => by omega

/-- The heartbeat of the holder is recorded in its row. -/
theorem recordWorkerHeartbeat_of_holder (hrows : t.rows = (t.get workerHeartbeatKey).toList)
    (hget : t.get workerHeartbeatKey = some r) (hw : r.workerId = w) :
    (t.recordWorkerHeartbeat w now).1 = true ∧
      (t.recordWorkerHeartbeat w now).2.rows = [{ r with heartbeatAt := now }] := by
  unfold recordWorkerHeartbeat
  rw [hget] at hrows ⊢
  simp only [ne_eq, hw, not_true_eq_false, if_false, update_rows, true_and]
  rw [hrows]
  simp [key_of_get hget, hw]

/-- That of another worker is not recorded. -/
theorem recordWorkerHeartbeat_of_ne (hw : t.holder ≠ some w) :
    t.recordWorkerHeartbeat w now = (false, t) := by
  unfold recordWorkerHeartbeat
  split
  · rfl
  · rename_i row hget
    rw [holder_of_get hget] at hw
    rw [if_pos fun h => hw (congrArg some h)]

/-- The holder gives the row back. -/
theorem releaseWorkerLease_of_holder (hrows : t.rows = (t.get workerHeartbeatKey).toList)
    (hw : t.holder = some w) : (t.releaseWorkerLease w).rows = [] := by
  obtain ⟨row, hget, rfl⟩ := Option.map_eq_some_iff.mp hw
  rw [hget] at hrows
  rw [releaseWorkerLease, delete_rows, hrows]
  simp [key_of_get hget]

/-- Another worker cannot. -/
theorem releaseWorkerLease_of_ne (hrows : t.rows = (t.get workerHeartbeatKey).toList)
    (hw : t.holder ≠ some w) : t.releaseWorkerLease w = t := by
  unfold releaseWorkerLease delete
  congr
  refine List.filter_eq_self.mpr fun r hr => ?_
  rw [hrows, Option.mem_toList] at hr
  rw [holder_of_get hr] at hw
  have hne : r.workerId ≠ w := fun h => hw (congrArg some h)
  simp [hne]

/-- A transaction on a table with at most one row. -/
theorem perform_step (hrows : t.rows = (t.get workerHeartbeatKey).toList) :
    LeaseStep t now op (t.perform now op).1 (t.perform now op).2 := by
  cases op with
  | start w =>
    show LeaseStep t now (.start w) (match t.recordWorkerStart w now with
      | .ok t' => (LeaseOutcome.started, t')
      | .error e => (.refused e, t)).1 (match t.recordWorkerStart w now with
      | .ok t' => (LeaseOutcome.started, t')
      | .error e => (.refused e, t)).2
    cases hstart : t.recordWorkerStart w now with
    | ok t' =>
      obtain ⟨hstale, hrows'⟩ := recordWorkerStart_eq_ok hrows hstart
      exact .taken w t' hstale hrows'
    | error e => exact .refused w e
  | heartbeat w =>
    show LeaseStep t now (.heartbeat w) (.heartbeat (t.recordWorkerHeartbeat w now).1)
      (t.recordWorkerHeartbeat w now).2
    by_cases hw : t.holder = some w
    · obtain ⟨row, hget, hrow⟩ := Option.map_eq_some_iff.mp hw
      obtain ⟨htrue, hrows'⟩ : (t.recordWorkerHeartbeat w now).1 = true ∧
          (t.recordWorkerHeartbeat w now).2.rows = [{ row with heartbeatAt := now }] :=
        recordWorkerHeartbeat_of_holder hrows hget hrow
      rw [htrue]
      exact .beaten w row _ hget hrow hrows'
    · rw [recordWorkerHeartbeat_of_ne hw]
      exact .rejected w hw
  | release w =>
    show LeaseStep t now (.release w) .released (t.releaseWorkerLease w)
    by_cases hw : t.holder = some w
    · exact .returned w _ hw (releaseWorkerLease_of_holder hrows hw)
    · rw [releaseWorkerLease_of_ne hrows hw]
      exact .kept w hw

/-- The only row, where it is that of the key. -/
theorem get_of_rows (hrows : t.rows = [r]) (hkey : r.key = workerHeartbeatKey) :
    t.get workerHeartbeatKey = some r := by
  simp [get, hrows, hkey]

/-- There is no row to read. -/
theorem get_of_rows_nil (hrows : t.rows = []) : t.get workerHeartbeatKey = none := by
  rw [get, hrows, List.find?_nil]

end LeaseTable

/-- A transaction leaves at most the row of the key. -/
theorem LeaseStep.rows (h : LeaseStep t now op outcome t')
    (hrows : t.rows = (t.get workerHeartbeatKey).toList) :
    t'.rows = (t'.get workerHeartbeatKey).toList := by
  cases h with
  | taken w t' _ h => rw [LeaseTable.get_of_rows h rfl, h, Option.toList_some]
  | beaten w r t' hget _ h =>
    have hkey : r.key = workerHeartbeatKey := LeaseTable.key_of_get hget
    rw [LeaseTable.get_of_rows h hkey, h, Option.toList_some]
  | returned w t' _ h => rw [LeaseTable.get_of_rows_nil h, h, Option.toList_none]
  | refused | rejected | kept => exact hrows

/-- The row names another worker only after a start of that worker, which found no row or a
stale one. -/
theorem LeaseStep.holder {w' : WorkerId} (h : LeaseStep t now op outcome t')
    (hw' : t'.holder = some w') (hne : t.holder ≠ some w') :
    op = .start w' ∧ outcome = .started ∧
      ∀ r ∈ t.get workerHeartbeatKey, r.heartbeatAt + workerLeaseTimeout ≤ now := by
  cases h with
  | taken w t' hstale h =>
    rw [LeaseTable.holder_of_get (LeaseTable.get_of_rows h rfl)] at hw'
    cases hw'
    refine ⟨rfl, rfl, fun r hr => (hstale r hr).resolve_left fun hw => hne ?_⟩
    rw [LeaseTable.holder_of_get hr, hw]
  | beaten w r t' hget hr h =>
    have hkey : r.key = workerHeartbeatKey := LeaseTable.key_of_get hget
    rw [LeaseTable.holder_of_get (LeaseTable.get_of_rows h hkey)] at hw'
    exact absurd ((LeaseTable.holder_of_get hget).trans hw') hne
  | returned w t' _ h =>
    rw [LeaseTable.holder, LeaseTable.get_of_rows_nil h] at hw'
    cases hw'
  | refused | rejected | kept => exact absurd hw' hne

/-- Only the worker that the row names writes to it without a start. -/
theorem LeaseStep.of_ne (h : LeaseStep t now op outcome t') (hw : t.holder ≠ some w) :
    (op = .heartbeat w → outcome = .heartbeat false ∧ t' = t) ∧ (op = .release w → t' = t) := by
  cases h with
  | taken | refused => exact ⟨nofun, nofun⟩
  | beaten w' r t' hget hr h =>
    refine ⟨fun hop => ?_, nofun⟩
    cases hop
    exact absurd (hr ▸ LeaseTable.holder_of_get hget) hw
  | rejected w' => exact ⟨fun _ => ⟨rfl, rfl⟩, nofun⟩
  | returned w' t' hget h =>
    refine ⟨nofun, fun hop => ?_⟩
    cases hop
    exact absurd hget hw
  | kept w' => exact ⟨nofun, fun _ => rfl⟩

/-- **A transaction keeps the invariant.** -/
theorem LeaseInvariant.step (hinv : LeaseInvariant h t) (htime : ∀ e ∈ h, e.time ≤ now)
    (hstep : LeaseStep t now op outcome t') :
    LeaseInvariant (h ++ [⟨op, now, outcome, t, t'⟩]) t' := by
  refine ⟨hstep.rows hinv.rows, fun r hr e he hrec => ?_, fun w hw => ?_, fun hnone w hlast => ?_⟩
  · cases hstep with
    | taken w t' _ h =>
      rw [LeaseTable.get_of_rows h rfl] at hr
      cases hr
      obtain he | he := List.mem_append.mp he
      · exact htime e he
      · rw [List.mem_singleton.mp he]
    | beaten w r' t' hget _ h =>
      have hkey : r'.key = workerHeartbeatKey := LeaseTable.key_of_get hget
      rw [LeaseTable.get_of_rows h hkey] at hr
      cases hr
      obtain he | he := List.mem_append.mp he
      · exact htime e he
      · rw [List.mem_singleton.mp he]
    | returned w t' _ h =>
      rw [LeaseTable.get_of_rows_nil h] at hr
      cases hr
    | refused | rejected | kept =>
      obtain he | he := List.mem_append.mp he
      · exact hinv.recorded r hr e he hrec
      · rw [List.mem_singleton.mp he] at hrec
        obtain ⟨-, h⟩ | ⟨-, h⟩ := hrec <;> cases h
  · rw [lastHolder_concat, hw, Option.some_or]
  · rw [lastHolder_concat, hnone, Option.none_or] at hlast
    have hrows : t'.rows = [] := by
      rw [hstep.rows hinv.rows, Option.map_eq_none_iff.mp hnone, Option.toList_none]
    cases hstep with
    | taken w' t' _ h => exact absurd (h.symm.trans hrows) (by simp)
    | beaten w' r t' _ _ h => exact absurd (h.symm.trans hrows) (by simp)
    | returned w' t' hholder hempty =>
      rw [hinv.lastHolder w' hholder] at hlast
      cases hlast
      refine ⟨h, ⟨.release w, now, .released, t, t'⟩, [], rfl, rfl, hholder, fun x hx => ?_⟩
      rw [List.mem_singleton.mp hx]
      exact hrows
    | refused | rejected | kept =>
      obtain ⟨pre, e, post, rfl, hop, hbefore, hempty⟩ := hinv.returned hnone w hlast
      refine ⟨pre, e, post ++ [_], by rw [List.append_assoc, List.cons_append], hop, hbefore, ?_⟩
      rw [← List.cons_append]
      intro x hx
      obtain hx | hx := List.mem_append.mp hx
      · exact hempty x hx
      · rw [List.mem_singleton.mp hx]
        exact hrows

/-- The invariant holds in every run. -/
theorem LeaseRun.invariant (hrun : LeaseRun h t) : LeaseInvariant h t := by
  induction hrun with
  | start => exact ⟨rfl, nofun, nofun, nofun⟩
  | step op now _ htime ih => exact ih.step htime (LeaseTable.perform_step ih.rows)

/-- A worker that the row does not name is not named until it starts. -/
theorem LeaseRun.holder_ne (hrun : LeaseRun h t) {pre mid : List LeaseEntry} {d : LeaseEntry}
    (heq : h = pre ++ d :: mid) (hd : d.after.holder ≠ some w) (hmid : ∀ x ∈ mid, ¬x.Starts w) :
    t.holder ≠ some w := by
  induction hrun generalizing mid with
  | start => simp at heq
  | @step h t op now hrun _ ih =>
    obtain ⟨-, rfl, -⟩ | ⟨mid', rfl, heq'⟩ := concat_eq_append_cons.mp heq
    · exact hd
    · have hbefore := ih heq' fun x hx => hmid x (List.mem_append_left _ hx)
      intro hafter
      obtain ⟨hop, hout, -⟩ := (LeaseTable.perform_step hrun.invariant.rows).holder hafter hbefore
      exact hmid _ (List.mem_append_right _ (List.mem_singleton_self _)) ⟨hop, hout⟩

/-- **The law of the lease row.** -/
theorem LeaseRun.law (hrun : LeaseRun h t) : LeaseLaw h := by
  induction hrun with
  | start => exact ⟨nofun, by simp, by simp⟩
  | @step h t op now hrun htime ih =>
    have hinv := hrun.invariant
    have hstep : LeaseStep t now op (t.perform now op).1 (t.perform now op).2 :=
      LeaseTable.perform_step hinv.rows
    refine ⟨fun e he => ?_, fun pre e post w w' heq hlast hafter hne => ?_,
      fun pre d mid e post w heq hd hmid => ?_⟩
    · obtain he | he := List.mem_append.mp he
      · exact ih.oneRow e he
      · rw [List.mem_singleton.mp he, (hstep.rows hinv.rows)]
        exact Option.length_toList_le
    · obtain ⟨rfl, rfl, -⟩ | ⟨post', rfl, rfl⟩ := concat_eq_append_cons.mp heq
      · have hbefore : t.holder ≠ some w' := by
          intro hholder
          rw [hinv.lastHolder w' hholder] at hlast
          exact hne (Option.some.inj hlast).symm
        obtain ⟨hop, hout, hstale⟩ := hstep.holder hafter hbefore
        refine ⟨⟨hop, hout⟩, ?_⟩
        cases hget : t.get workerHeartbeatKey with
        | none => exact .inr (hinv.returned (by rw [LeaseTable.holder, hget]; rfl) w hlast)
        | some r =>
          rw [hinv.lastHolder _ (LeaseTable.holder_of_get hget)] at hlast
          cases hlast
          refine .inl fun x hx hrec => ?_
          have hx := hinv.recorded r hget x hx hrec
          have hr := hstale r hget
          show x.time + workerLeaseTimeout ≤ now
          omega
      · exact ih.handover pre e post' w w' rfl hlast hafter hne
    · rw [← List.cons_append, ← List.append_assoc] at heq
      obtain ⟨hpre, rfl, -⟩ | ⟨post', rfl, heq'⟩ := concat_eq_append_cons.mp heq
      · exact hstep.of_ne (hrun.holder_ne hpre hd hmid)
      · refine ih.displaced pre d mid e post' w ?_ hd hmid
        rw [heq', List.append_assoc, List.cons_append]

/-- Two workers: the second one is refused for thirty seconds, and the first one does not come
back. -/
theorem law_twoWorkers : ∃ h t, LeaseRun h t ∧
    h.map LeaseEntry.outcome = [.started, .refused .workerAlreadyRunning, .started,
      .heartbeat false] ∧ LeaseLaw h := by
  have hrun := (((LeaseRun.start.step (.start "a:1") 0 (by simp)).step (.start "b:2") 29999999
    (by simp)).step (.start "b:2") 30000000 (by simp)).step (.heartbeat "a:1") 30000001 (by simp)
  exact ⟨_, _, hrun, by decide +kernel, hrun.law⟩

end Law

section World

variable {s : World} {w : WorkerId}

/-- The table of a world, which counts its moments in seconds. -/
def World.leaseTable (s : World) : LeaseTable where
  rows := (s.heartbeat.map fun l =>
    ⟨workerHeartbeatKey, l.workerId, l.startedAt * 1000000, l.heartbeatAt * 1000000⟩).toList
  nodup := by cases s.heartbeat <;> simp

/-- The row of a world's table, if there is one. -/
theorem leaseTable_rows (s : World) : s.leaseTable.rows = (s.heartbeat.map fun l =>
    ⟨workerHeartbeatKey, l.workerId, l.startedAt * 1000000, l.heartbeatAt * 1000000⟩).toList := rfl

/-- And what is read of it. -/
theorem leaseTable_get : s.leaseTable.get workerHeartbeatKey = s.heartbeat.map fun l =>
    ⟨workerHeartbeatKey, l.workerId, l.startedAt * 1000000, l.heartbeatAt * 1000000⟩ := by
  rw [LeaseTable.get, leaseTable_rows]
  cases s.heartbeat <;> simp

/-- Tables with the same rows are the same. -/
theorem LeaseTable.ext_rows {t t' : LeaseTable} (h : t.rows = t'.rows) : t = t' := by
  cases t
  cases t'
  congr

/-- **The start of a worker in the system is one on the table.** -/
theorem leaseTable_recordWorkerStart (hw : w ≠ "") :
    (s.leaseTable.recordWorkerStart w (s.now * 1000000)).toOption =
      (recordWorkerStart w s).toOption.map fun r => r.2.leaseTable := by
  unfold LeaseTable.recordWorkerStart recordWorkerStart
  rw [if_neg hw]
  simp only
  split
  · rename_i hnone
    rw [leaseTable_get, Option.map_eq_none_iff] at hnone
    simp only [hnone, Except.toOption, Option.map_some, Option.some.injEq]
    refine LeaseTable.ext_rows ?_
    simp [World.leaseTable, hnone]
  · rename_i row hrow
    rw [leaseTable_get] at hrow
    obtain ⟨l, hl, rfl⟩ := Option.map_eq_some_iff.mp hrow
    have hstale : (l.heartbeatAt : ℤ) * 1000000 ≤ s.now * 1000000 - workerLeaseTimeout ↔
        l.heartbeatAt + workerLeaseTimeoutSeconds ≤ s.now := by
      unfold workerLeaseTimeout workerLeaseTimeoutSeconds
      omega
    simp only [hl, hstale]
    split_ifs
    · simp only [Except.toOption, Option.map_some, Option.some.injEq]
      refine LeaseTable.ext_rows ?_
      simp [World.leaseTable, hl]
    · rfl

/-- A heartbeat of the system is one of its table. -/
theorem leaseTable_recordWorkerHeartbeat :
    (s.leaseTable.recordWorkerHeartbeat w (s.now * 1000000)).2 =
      (recordWorkerHeartbeat w s).leaseTable := by
  unfold LeaseTable.recordWorkerHeartbeat recordWorkerHeartbeat
  rw [leaseTable_get]
  cases hl : s.heartbeat with
  | none => rfl
  | some l =>
    simp only [Option.map_some]
    by_cases hw : l.workerId = w
    · rw [if_neg (not_not.mpr hw), if_pos hw]
      refine LeaseTable.ext_rows ?_
      simp [World.leaseTable, hl]
    · rw [if_pos hw, if_neg hw]

/-- And so is giving the lease back. -/
theorem leaseTable_releaseWorkerLease :
    s.leaseTable.releaseWorkerLease w = (releaseWorkerLease w s).leaseTable := by
  unfold LeaseTable.releaseWorkerLease releaseWorkerLease
  refine LeaseTable.ext_rows ?_
  rw [LeaseTable.delete_rows, leaseTable_rows, leaseTable_rows]
  cases s.heartbeat with
  | none => rfl
  | some l => by_cases hw : l.workerId = w <;> simp [Option.filter, hw]

end World

end PalworldManager
