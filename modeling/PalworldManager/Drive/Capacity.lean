/-
# Making room on the Drive

`_prepare_capacity` removes managed remote backups, oldest first, in two loops: while there
are as many as the retention, and while its estimate of the available bytes is too small.
How far it is can be read off its trace (`capacityCourse`); `Standing` ties that to the
records, and each of the two loops is followed by induction on the bound that it asked for.
The measure of both is the number of records that are left, so a bound above the number of
records is never reached.
-/

import PalworldManager.Backups.Retention
import PalworldManager.Executors.Drive

namespace PalworldManager

open Effects

variable {L : Type} {j : JobId}

section Course

/-- The managed remote records, oldest first. -/
def oldestRemote (s : World) : List (ℕ × BackupRecord) := (managedRemoteRecords s).reverse

/-- How far a preparation of capacity is: how many records it has removed, and its estimate
of the available bytes once it has one. -/
structure CapacityCourse where
  removed : ℕ
  available : Option ℕ
  deriving DecidableEq, Repr

/-- The bytes that the removal of the `i`th of some records is taken to free. -/
def removedBytes (rs : List (ℕ × BackupRecord)) (i : ℕ) : ℕ :=
  (rs[i]?.bind fun r => r.2.sizeBytes).getD 0

/-- What a step does to it: a removal is counted, and an answer about the quota makes the
estimate, or raises it together with the bytes of the last removal. -/
def CapacityCourse.step (rs : List (ℕ × BackupRecord)) (c : CapacityCourse) : Ev → CapacityCourse
  | .tx (.records _) => { c with removed := c.removed + 1 }
  | .ask (_, .quota) (.ok quota) =>
      { c with available := some (match c.available with
          | none => quota.freeBytes
          | some available =>
              max (available + removedBytes rs (c.removed - 1)) quota.freeBytes) }
  | _ => c

def capacityCourse (rs : List (ℕ × BackupRecord)) (tr : List Ev) : CapacityCourse :=
  tr.foldl (CapacityCourse.step rs) ⟨0, none⟩

/-- The commit of a removal, as the trace before it shows it: the record is the oldest that is
left, the remote has just deleted its file, and nothing else, and there were as many records
as the retention, or the estimate was too small. -/
structure RemovesOldest (rs : List (ℕ × BackupRecord)) (j : JobId) (retention requiredBytes : ℕ)
    (tr : List Ev) : Prop where
  oldest : ∃ r before, rs[(capacityCourse rs tr).removed]? = some r ∧
    tr = before ++ [.ask (j, .deletefile r.2.filename) .done, .tx (.deleted j r.2.filename)]
  needed : retention ≤ rs.length - (capacityCourse rs tr).removed ∨
    ∃ available, (capacityCourse rs tr).available = some available ∧ available < requiredBytes

/-- The records without the oldest so many of those that were managed and remote. -/
def withoutOldest (s₀ : World) (k : ℕ) : Table BackupRecord :=
  (s₀.deleteRecords (((oldestRemote s₀).take k).map Prod.fst)).backups

/-- A step that neither removes a record nor tells the quota. -/
def isIdle : Ev → Bool
  | .tx (.records _) | .ask (_, .quota) _ => false
  | _ => true

/-- Where a preparation stands that began with the records of `s₀`. -/
structure Standing (s₀ s : World) (tr : List Ev) (k : ℕ) (available : Option ℕ) : Prop where
  records : s.backups = withoutOldest s₀ k
  course : capacityCourse (oldestRemote s₀) tr = ⟨k, available⟩
  le : k ≤ (oldestRemote s₀).length

variable {s₀ s s' : World} {tr : List Ev} {e : Ev} {k : ℕ} {available : Option ℕ}

/-- One more step of the course. -/
theorem capacityCourse_concat (rs : List (ℕ × BackupRecord)) (tr : List Ev) (e : Ev) :
    capacityCourse rs (tr ++ [e]) = (capacityCourse rs tr).step rs e := by
  simp [capacityCourse]

/-- An idle step leaves the course. -/
theorem CapacityCourse.step_of_isIdle (he : isIdle e = true) (rs : List (ℕ × BackupRecord))
    (c : CapacityCourse) : c.step rs e = c := by
  unfold CapacityCourse.step
  split
  · cases he
  · cases he
  · rfl

/-- At the start nothing is removed. -/
theorem standing_start (s : World) : Standing s s [] 0 none where
  records := by
    simp [withoutOldest, World.deleteRecords, Table.keep]
  course := rfl
  le := Nat.zero_le _

/-- An idle step leaves the standing. -/
theorem Standing.idle (h : Standing s₀ s tr k available) (hs : s'.backups = s.backups)
    (he : isIdle e = true) : Standing s₀ s' (tr ++ [e]) k available where
  records := hs.trans h.records
  course := by rw [capacityCourse_concat, h.course, CapacityCourse.step_of_isIdle he]
  le := h.le

/-- What others do leaves it. -/
theorem Standing.rely (h : Standing s₀ s tr k available) (hs : SameRows s s') :
    Standing s₀ s' tr k available :=
  ⟨hs.backups.trans h.records, h.course, h.le⟩

/-- No record is listed twice. -/
theorem nodup_oldestRemote (s : World) : ((oldestRemote s).map Prod.fst).Nodup := by
  rw [oldestRemote, List.map_reverse, List.nodup_reverse]
  exact (s.backups.nodup_select _ _).sublist (List.filter_sublist.map _)

/-- Which records are left. -/
theorem managedRemoteRecords_of_withoutOldest (hs : s.backups = withoutOldest s₀ k) :
    managedRemoteRecords s = ((oldestRemote s₀).drop k).reverse := by
  have hkeep : managedRemoteRecords s = (managedRemoteRecords s₀).filter fun r =>
      r.1 ∉ ((oldestRemote s₀).take k).map Prod.fst := by
    simp only [managedRemoteRecords, World.validRecords, hs, withoutOldest,
      World.deleteRecords, Table.select_keep NewerFirst.antisymm, List.filter_filter, Bool.and_comm]
  have hids := nodup_oldestRemote s₀
  rw [← List.take_append_drop k (oldestRemote s₀), List.map_append] at hids
  have hdisjoint := List.disjoint_of_nodup_append hids
  have hsplit : managedRemoteRecords s₀ =
      ((oldestRemote s₀).drop k).reverse ++ ((oldestRemote s₀).take k).reverse := by
    rw [← List.reverse_append, List.take_append_drop, oldestRemote, List.reverse_reverse]
  rw [hkeep, hsplit, List.filter_append, List.filter_eq_self.mpr, List.filter_eq_nil_iff.mpr,
    List.append_nil]
  · intro r hr
    simpa using List.mem_map_of_mem (List.mem_reverse.mp hr)
  · intro r hr
    exact decide_eq_true fun hmem =>
      hdisjoint hmem (List.mem_map_of_mem (List.mem_reverse.mp hr))

/-- **What is managed is what is left**, the newest first. -/
theorem Standing.managedRemoteRecords (h : Standing s₀ s tr k available) :
    managedRemoteRecords s = ((oldestRemote s₀).drop k).reverse :=
  managedRemoteRecords_of_withoutOldest h.records

/-- Each removal leaves one record less. -/
theorem Standing.length_managedRemoteRecords (h : Standing s₀ s tr k available) :
    (PalworldManager.managedRemoteRecords s).length = (oldestRemote s₀).length - k := by
  rw [h.managedRemoteRecords, List.length_reverse, List.length_drop]

/-- The oldest that is left is the next to be removed. -/
theorem Standing.getLast? (h : Standing s₀ s tr k available) :
    (PalworldManager.managedRemoteRecords s).getLast? = (oldestRemote s₀)[k]? := by
  rw [h.managedRemoteRecords, List.getLast?_reverse, List.head?_drop]

/-- The removal of the oldest record that is left. -/
theorem Standing.removal (h : Standing s₀ s tr k available) {r : ℕ × BackupRecord}
    (hr : (oldestRemote s₀)[k]? = some r) (i : JobId) :
    Standing s₀ (s.deleteRecords [r.1]) (tr ++ [.tx (.records i)]) (k + 1) available where
  records := by
    have htake : (oldestRemote s₀).take (k + 1) = (oldestRemote s₀).take k ++ [r] := by
      rw [List.take_add_one, hr, Option.toList_some]
    simp only [World.deleteRecords, h.records, withoutOldest, htake, Table.keep, List.filter_filter,
      List.map_append, List.mem_append, not_or, Bool.decide_and, List.map_cons, List.map_nil,
      Bool.and_comm]
  course := by rw [capacityCourse_concat, h.course]; rfl
  le := by
    have := (List.getElem?_eq_some_iff.mp hr).1
    omega

/-- What a preparation that began with the records of `s₀` does in one step. -/
structure CapacityStep (s₀ : World) (j : JobId) (retention requiredBytes : ℕ) (tr : List Ev)
    (e : Ev) (s' : World) : Prop where
  records : s'.backups =
    withoutOldest s₀ (capacityCourse (oldestRemote s₀) (tr ++ [e])).removed
  removal : ∀ i, e = .tx (.records i) → RemovesOldest (oldestRemote s₀) j retention requiredBytes tr

variable {retention requiredBytes bound : ℕ}

/-- Where the standing goes on, the step removed no record. -/
theorem Standing.capacityStep (h : Standing s₀ s' (tr ++ [e]) k available)
    (he : ∀ i, e ≠ .tx (.records i)) : CapacityStep s₀ j retention requiredBytes tr e s' where
  records := by rw [h.course, h.records]
  removal i hi := absurd hi (he i)

/-- The steps of a preparation, of which there are at most `bound` with those before it. -/
def capacitySteps (s₀ : World) (j : JobId) (retention requiredBytes bound : ℕ) :
    World → List Ev → Ev → World → Prop :=
  fun _ tr e s' => CapacityStep s₀ j retention requiredBytes tr e s' ∧ tr.length < bound

end Course

section Loops

open Exec hiding bind ask

variable {α β : Type} {s₀ s : World} {tr : List Ev} {k retention requiredBytes bound : ℕ}
  {available : Option ℕ} {ℓ : L} {E : Exn → L → World → List Ev → Prop}

/-- An idle call leaves the standing. -/
theorem wp_capacity_ask {c : Call} {Q : Reply c → L → World → List Ev → Prop}
    (h : Standing s₀ s tr k available) (hlength : tr.length < bound)
    (hc : ∀ r, isIdle (.ask (j, c) r) = true)
    (hQ : ∀ s₁ r, Standing s₀ s₁ (tr ++ [.ask (j, c) r]) k available →
      Q r ℓ s₁ (tr ++ [.ask (j, c) r])) :
    wp SameRows (capacitySteps s₀ j retention requiredBytes bound) (ask j c : Py L (Reply c))
      Q E ℓ s tr := by
  refine (wp_call j c).mpr fun s₁ hs₁ r => ?_
  have h₁ := (h.rely hs₁).idle rfl (hc r)
  exact ⟨⟨h₁.capacityStep nofun, hlength⟩, hQ s₁ r h₁⟩

/-- So does a query. -/
theorem wp_capacity_query {f : World → Except Exn α} {Q : α → L → World → List Ev → Prop}
    (h : Standing s₀ s tr k available) (hlength : tr.length < bound)
    (hQ : ∀ s₁ a, SameRows s s₁ → f s₁ = .ok a →
      Standing s₀ s₁ (tr ++ [.tx .read]) k available → Q a ℓ s₁ (tr ++ [.tx .read]))
    (hE : ∀ e s₁ tr₁, Standing s₀ s₁ tr₁ k available → E e ℓ s₁ tr₁) :
    wp SameRows (capacitySteps s₀ j retention requiredBytes bound) (query f : Py L α)
      Q E ℓ s tr := by
  refine (wp_query f).mpr fun s₁ hs₁ => ?_
  have h₁ : Standing s₀ s₁ (tr ++ [.tx .read]) k available := (h.rely hs₁).idle rfl rfl
  exact ⟨⟨h₁.capacityStep nofun, hlength⟩, fun a ha => hQ s₁ a hs₁ ha h₁,
    fun e _ => hE e s₁ _ h₁⟩

/-- The remote delete of the file of a record. -/
theorem wp_capacity_transferDelete {record : BackupRecord} {Q : Unit → L → World → List Ev → Prop}
    (h : Standing s₀ s tr k available) (hlength : tr.length + 2 ≤ bound)
    (hQ : ∀ s₁ tr₁, tr₁ = tr ++ [.ask (j, .deletefile record.filename) .done,
      .tx (.deleted j record.filename)] → Standing s₀ s₁ tr₁ k available → Q () ℓ s₁ tr₁)
    (hE : ∀ e s₁ tr₁, Standing s₀ s₁ tr₁ k available → E e ℓ s₁ tr₁) :
    wp SameRows (capacitySteps s₀ j retention requiredBytes bound)
      (transferDelete j record : Py L Unit) Q E ℓ s tr := by
  unfold transferDelete validateRemoteRecord
  rw [wp_bind]
  cases record.remoteContent with
  | none => exact (wp_raise _).mpr (hE _ _ _ h)
  | some content =>
    refine (wp_pure content).mpr ?_
    unfold storageDelete
    rw [wp_bind, wp_raiseIf]
    refine ⟨fun _ => hE _ _ _ h, fun _ => ?_⟩
    unfold deleteExact
    rw [wp_bind]
    refine wp_capacity_ask h (by omega) (fun _ => rfl) fun s₁ change h₁ => ?_
    rw [wp_bind, wp_tx]
    intro s₂ hs₂
    set s₃ : World := if change.happened then
      { s₂ with remoteFiles := Function.update s₂.remoteFiles record.filename none } else s₂
    have hs₃ : s₃.backups = s₂.backups := by
      simp only [s₃]
      split_ifs <;> rfl
    have h₃ : Standing s₀ s₃ (tr ++ [.ask (j, .deletefile record.filename) change] ++
        [.tx (.deleted j record.filename)]) k available := (h₁.rely hs₂).idle hs₃ rfl
    refine ⟨⟨h₃.capacityStep nofun, ?_⟩, ?_⟩
    · rw [List.length_append, List.length_singleton]
      omega
    · cases change with
      | done => exact (wp_pure ()).mpr (hQ _ _ (by rw [List.append_assoc]; rfl) h₃)
      | failed f happened =>
        refine (wp_raiseIf _ _).mpr ⟨fun _ => hE _ _ _ h₃, fun hno => absurd ?_ hno⟩
        simp

/-- `_remove_oldest_managed_remote`, while there is a record left. -/
theorem wp_removeOldestManagedRemote {Q : ℕ → L → World → List Ev → Prop}
    (h : Standing s₀ s tr k available) (hk : k < (oldestRemote s₀).length)
    (hlength : tr.length + 4 ≤ bound)
    (hneeded : retention ≤ (oldestRemote s₀).length - k ∨
      ∃ a, available = some a ∧ a < requiredBytes)
    (hQ : ∀ s₁ tr₁, Standing s₀ s₁ tr₁ (k + 1) available → tr₁.length = tr.length + 4 →
      Q (removedBytes (oldestRemote s₀) k) ℓ s₁ tr₁)
    (hE : ∀ e s₁ tr₁ k, Standing s₀ s₁ tr₁ k available → E e ℓ s₁ tr₁) :
    wp SameRows (capacitySteps s₀ j retention requiredBytes bound)
      (removeOldestManagedRemote j : Py L ℕ) Q E ℓ s tr := by
  obtain ⟨⟨id, record⟩, hr⟩ : ∃ r, (oldestRemote s₀)[k]? = some r :=
    ⟨_, List.getElem?_eq_getElem hk⟩
  unfold removeOldestManagedRemote
  rw [wp_bind]
  refine wp_capacity_query h (by omega) (fun s₁ found hs₁ hfound h₁ => ?_)
    fun e s₁ tr₁ h₁ => hE e s₁ tr₁ k h₁
  obtain rfl : some (id, record) = found := by
    rw [← hr, ← (h.rely hs₁).getLast?]
    exact Except.ok.inj hfound
  dsimp only
  rw [wp_bind]
  refine wp_capacity_transferDelete h₁ (by simp; omega) (fun s₂ tr₂ htr₂ h₂ => ?_)
    fun e s₁ tr₁ h₁ => hE e s₁ tr₁ k h₁
  rw [wp_bind, wp_session]
  refine fun s₃ hs₃ => ⟨fun u s₄ hs₄ => ?_, nofun⟩
  obtain rfl : s₃.deleteRecords [id] = s₄ := by simpa using hs₄
  have h₃ := h₂.rely hs₃
  have h₄ := h₃.removal hr j
  have htr₂' : tr₂.length = tr.length + 3 := by
    rw [htr₂]
    simp
  refine ⟨⟨⟨by rw [h₄.course, h₄.records], fun i _ => ⟨⟨(id, record), _, ?_, htr₂⟩, ?_⟩⟩, ?_⟩, ?_⟩
  · rw [h₃.course, hr]
  · rw [h₃.course]
    exact hneeded
  · omega
  · have hbytes : record.sizeBytes.getD 0 = removedBytes (oldestRemote s₀) k := by
      simp [removedBytes, hr]
    exact (wp_pure _).mpr (hbytes ▸ hQ _ _ h₄ (by simp [htr₂']))

/-- The count is that of what is left. -/
theorem wp_managedRemoteCount {Q : ℕ → L → World → List Ev → Prop}
    (h : Standing s₀ s tr k available) (hlength : tr.length < bound)
    (hQ : ∀ s₁, Standing s₀ s₁ (tr ++ [.tx .read]) k available →
      Q ((oldestRemote s₀).length - k) ℓ s₁ (tr ++ [.tx .read]))
    (hE : ∀ e s₁ tr₁, Standing s₀ s₁ tr₁ k available → E e ℓ s₁ tr₁) :
    wp SameRows (capacitySteps s₀ j retention requiredBytes bound)
      (managedRemoteCount : Py L ℕ) Q E ℓ s tr := by
  refine wp_capacity_query h hlength (fun s₁ n hs₁ hn h₁ => ?_) hE
  obtain rfl : (managedRemoteRecords s₁).length = n := Except.ok.inj hn
  rw [(h.rely hs₁).length_managedRemoteRecords]
  exact hQ s₁ h₁

/-- The first loop: it ends with fewer records than the retention, before its bound. -/
theorem wp_enforceRetention (hpos : 1 ≤ retention) (n : ℕ) {Q : Unit → L → World → List Ev → Prop}
    {s : World} {tr : List Ev} {k : ℕ} (h : Standing s₀ s tr k none)
    (hn : (oldestRemote s₀).length - k < n)
    (hlength : tr.length + 5 * ((oldestRemote s₀).length - k) + 1 ≤ bound)
    (hQ : ∀ s₁ tr₁ k₁, Standing s₀ s₁ tr₁ k₁ none → (oldestRemote s₀).length - k₁ < retention →
      tr₁.length + 5 * ((oldestRemote s₀).length - k₁) ≤
        tr.length + 5 * ((oldestRemote s₀).length - k) + 1 → Q () ℓ s₁ tr₁)
    (hE : ∀ e s₁ tr₁ k a, Standing s₀ s₁ tr₁ k a → E e ℓ s₁ tr₁) :
    wp SameRows (capacitySteps s₀ j retention requiredBytes bound)
      (enforceRetention j retention n : Py L Unit) Q E ℓ s tr := by
  induction n generalizing s tr k with
  | zero => omega
  | succ n ih =>
    rw [enforceRetention, wp_bind]
    refine wp_managedRemoteCount h (by omega) (fun s₁ h₁ => ?_) fun e s₁ tr₁ h₁ => hE e s₁ tr₁ k _ h₁
    rw [wp_ite]
    constructor
    · intro hfull
      rw [wp_bind]
      refine wp_removeOldestManagedRemote h₁ (by omega) ?_ (.inl hfull) (fun s₂ tr₂ h₂ htr₂ => ?_)
        fun e s₁ tr₁ k h₁ => hE e s₁ tr₁ k _ h₁
      · simp
        omega
      · rw [List.length_append, List.length_singleton] at htr₂
        refine ih h₂ (by omega) (by omega) fun s₃ tr₃ k₃ h₃ hk₃ htr₃ => hQ s₃ tr₃ k₃ h₃ hk₃ ?_
        omega
    · intro hroom
      refine (wp_pure ()).mpr (hQ s₁ _ k h₁ (by omega) ?_)
      simp
      omega

/-- The second loop: it ends before its bound, with the estimate as it stands. -/
theorem wp_enforceQuota (n : ℕ) {Q : ℕ → L → World → List Ev → Prop} {s : World} {tr : List Ev}
    {k a : ℕ} (h : Standing s₀ s tr k (some a)) (hn : (oldestRemote s₀).length - k < n)
    (hlength : tr.length + 7 * ((oldestRemote s₀).length - k) + 1 ≤ bound)
    (hQ : ∀ s₁ tr₁ k₁ a₁, Standing s₀ s₁ tr₁ k₁ (some a₁) → k ≤ k₁ →
      tr₁.length + 7 * ((oldestRemote s₀).length - k₁) ≤
        tr.length + 7 * ((oldestRemote s₀).length - k) + 1 → Q a₁ ℓ s₁ tr₁)
    (hE : ∀ e s₁ tr₁ k a, Standing s₀ s₁ tr₁ k a → E e ℓ s₁ tr₁) :
    wp SameRows (capacitySteps s₀ j retention requiredBytes bound)
      (enforceQuota j requiredBytes n a : Py L ℕ) Q E ℓ s tr := by
  induction n generalizing s tr k a with
  | zero => omega
  | succ n ih =>
    rw [enforceQuota, wp_ite]
    constructor
    · intro hsmall
      rw [wp_bind]
      refine wp_managedRemoteCount h (by omega) (fun s₁ h₁ => ?_)
        fun e s₁ tr₁ h₁ => hE e s₁ tr₁ k _ h₁
      rw [wp_ite]
      constructor
      · intro hleft
        rw [wp_bind]
        refine wp_capacity_query h₁ (by simp; omega) (fun s₂ cancel _ _ h₂ => ?_)
          fun e s₁ tr₁ h₁ => hE e s₁ tr₁ k _ h₁
        rw [wp_bind, wp_raiseIf]
        refine ⟨fun _ => hE _ _ _ _ _ h₂, fun _ => ?_⟩
        rw [wp_bind]
        refine wp_removeOldestManagedRemote h₂ (by omega) ?_ (.inr ⟨a, rfl, hsmall⟩)
          (fun s₃ tr₃ h₃ htr₃ => ?_) fun e s₁ tr₁ k h₁ => hE e s₁ tr₁ k _ h₁
        · simp
          omega
        · simp only [List.length_append, List.length_singleton] at htr₃
          rw [wp_bind, wp_call]
          intro s₄ hs₄ quota
          cases quota with
          | error f =>
            have h₄ : Standing s₀ s₄ (tr₃ ++ [.ask (j, .quota) (.error f)]) (k + 1) (some a) :=
              ⟨(h₃.rely hs₄).records, by rw [capacityCourse_concat, h₃.course]; rfl, h₃.le⟩
            refine ⟨⟨h₄.capacityStep nofun, by omega⟩, ?_⟩
            rw [wp_bind]
            exact (wp_ofReply _).mpr ⟨nofun, fun f _ => hE _ _ _ _ _ h₄⟩
          | ok quota =>
            have h₄ : Standing s₀ s₄ (tr₃ ++ [.ask (j, .quota) (.ok quota)]) (k + 1)
                (some (max (a + removedBytes (oldestRemote s₀) k) quota.freeBytes)) :=
              ⟨(h₃.rely hs₄).records, by rw [capacityCourse_concat, h₃.course]; rfl, h₃.le⟩
            refine ⟨⟨h₄.capacityStep nofun, by omega⟩, ?_⟩
            rw [wp_bind]
            refine (wp_ofReply _).mpr ⟨fun q hq => ?_, nofun⟩
            obtain rfl : quota = q := Except.ok.inj hq
            refine ih h₄ (by omega) ?_ fun s₅ tr₅ k₅ a₅ h₅ hk₅ htr₅ => hQ s₅ tr₅ k₅ a₅ h₅ (by omega) ?_
            · simp
              omega
            · simp only [List.length_append, List.length_singleton] at htr₅
              omega
      · intro hnone
        refine (wp_pure a).mpr (hQ s₁ _ k a h₁ le_rfl ?_)
        simp
        omega
    · intro henough
      exact (wp_pure a).mpr (hQ s tr k a h le_rfl (by omega))

end Loops

section Preparation

open Exec hiding bind ask

variable {α β : Type} {s₀ s s₁ : World} {tr : List Ev} {k retention requiredBytes bound : ℕ}
  {available : Option ℕ} {ℓ : L}

/-- The bounds that the loops of a trace asked for are above the number of records. -/
def Ample (s₀ : World) (tr : List Ev) : Prop :=
  ∀ i n, Event.ask (i, Call.bound) n ∈ tr → (oldestRemote s₀).length < n

/-- Where the loops have room, they had room before. -/
theorem Ample.past {e : Ev} (h : Ample s₀ (tr ++ [e])) : Ample s₀ tr :=
  fun i n hmem => h i n (List.mem_append_left _ hmem)

/-- The bound of a loop is past all records. -/
theorem Ample.last {i : JobId} {n : ℕ} (h : Ample s₀ (tr ++ [.ask (i, .bound) n])) :
    (oldestRemote s₀).length < n :=
  h i n (List.mem_append_right _ (List.mem_singleton_self _))

/-- What a preparation of capacity does, if it has room for its loops: every step is one of
`capacitySteps`, and it ends or raises where it `Standing` stands. -/
def Prepares (s₀ : World) (j : JobId) (retention requiredBytes bound : ℕ) (x : Py L α)
    (Q : α → World → List Ev → Prop) (ℓ : L) (s : World) (tr : List Ev) : Prop :=
  wp SameRows
    (fun s tr e s' => Ample s₀ (tr ++ [e]) →
      capacitySteps s₀ j retention requiredBytes bound s tr e s')
    x (fun a ℓ' s tr => Ample s₀ tr → ℓ' = ℓ ∧ Q a s tr)
    (fun _ _ s tr => Ample s₀ tr → ∃ k a, Standing s₀ s tr k a) ℓ s tr

/-- Where a loop has no room, nothing is said. -/
theorem prepares_of_not_ample {x : Py L α} {Q : α → World → List Ev → Prop}
    (h : ¬Ample s₀ tr) : Prepares s₀ j retention requiredBytes bound x Q ℓ s tr :=
  wp_of_past (fun _ _ hno hyes => hno hyes.past) (fun _ _ _ _ hno hyes => absurd hyes.past hno)
    (fun _ _ _ _ hno hyes => absurd hyes hno) (fun _ _ _ _ hno hyes => absurd hyes hno) h

/-- What two statements prepare, one after the other. -/
theorem prepares_bind {x : Py L α} {f : α → Py L β} {Q : β → World → List Ev → Prop}
    (h : Prepares s₀ j retention requiredBytes bound x
      (fun a s tr => Prepares s₀ j retention requiredBytes bound (f a) Q ℓ s tr) ℓ s tr) :
    Prepares s₀ j retention requiredBytes bound (x >>= f) Q ℓ s tr := by
  refine (wp_bind x f).mpr (wp_mono h (fun a ℓ' s tr hq => ?_) fun _ _ _ _ hE => hE)
  by_cases ha : Ample s₀ tr
  · obtain ⟨rfl, hf⟩ := hq ha
    exact hf
  · exact wp_of_past (fun _ _ hno hyes => hno hyes.past)
      (fun _ _ _ _ hno hyes => absurd hyes.past hno) (fun _ _ _ _ hno hyes => absurd hyes hno)
      (fun _ _ _ _ hno hyes => absurd hyes hno) ha

/-- What follows from the rules of the steps alone. -/
theorem prepares_of_wp {x : Py L α} {Q : α → World → List Ev → Prop}
    (h : wp SameRows (capacitySteps s₀ j retention requiredBytes bound) x
      (fun a ℓ' s tr => ℓ' = ℓ ∧ Q a s tr) (fun _ _ s tr => ∃ k a, Standing s₀ s tr k a) ℓ s tr) :
    Prepares s₀ j retention requiredBytes bound x Q ℓ s tr :=
  wp_guarantee (wp_mono h (fun _ _ _ _ hq _ => hq) fun _ _ _ _ hE _ => hE) fun _ _ _ _ hG _ => hG

/-- A loop asks for its bound. -/
theorem prepares_bound {f : ℕ → Py L α} {Q : α → World → List Ev → Prop}
    (h : Standing s₀ s tr k available) (hlength : tr.length < bound)
    (hf : ∀ s₁ n, (oldestRemote s₀).length < n →
      Standing s₀ s₁ (tr ++ [.ask (j, .bound) n]) k available →
      Prepares s₀ j retention requiredBytes bound (f n) Q ℓ s₁ (tr ++ [.ask (j, .bound) n])) :
    Prepares s₀ j retention requiredBytes bound (ask j .bound >>= f) Q ℓ s tr := by
  refine prepares_bind (prepares_of_wp (wp_capacity_ask h hlength (fun _ => rfl) fun s₁ n h₁ =>
    ⟨rfl, ?_⟩))
  by_cases hn : (oldestRemote s₀).length < n
  · exact hf s₁ n hn h₁
  · exact prepares_of_not_ample fun hample => hn hample.last

/-- A configured retention is positive. -/
theorem configuredDriveRetention_pos (h : configuredDriveRetention s = .ok retention) :
    1 ≤ retention := by
  obtain ⟨v, -, rfl⟩ := except_map_eq_ok.mp h
  exact v.driveBackupRetention.2.1

/-- `_prepare_capacity`, from where nothing has been removed. -/
theorem prepares_prepareCapacity {Q : Unit → World → List Ev → Prop}
    (hretention : configuredDriveRetention s₀ = .ok retention) (hsame : SameRows s₀ s)
    (h : Standing s₀ s tr 0 none) (hbound : tr.length + 7 * (oldestRemote s₀).length + 6 ≤ bound)
    (hQ : ∀ s₁ tr₁ k a, Standing s₀ s₁ tr₁ k (some a) → (oldestRemote s₀).length - k < retention →
      requiredBytes ≤ a → Q () s₁ tr₁) :
    Prepares s₀ j retention requiredBytes bound (prepareCapacity j requiredBytes : Py L Unit)
      Q ℓ s tr := by
  have hpos := configuredDriveRetention_pos hretention
  unfold prepareCapacity
  refine prepares_bind (prepares_of_wp (wp_capacity_query h (by omega)
    (fun s₁ n hs₁ hn h₁ => ⟨rfl, ?_⟩) fun e s₁ tr₁ h₁ => ⟨_, _, h₁⟩))
  obtain rfl : retention = n := by
    have hsame₁ : configuredDriveRetention s₁ = configuredDriveRetention s₀ := by
      rw [configuredDriveRetention, configuredDriveRetention, loadManagerSettings,
        loadManagerSettings, hs₁.settings, hs₁.timezones, hsame.settings, hsame.timezones]
    exact Except.ok.inj ((hretention.symm.trans hsame₁.symm).trans hn)
  refine prepares_bound h₁ (by simp; omega) fun s₂ bound₁ hbound₁ h₂ => ?_
  refine prepares_bind (prepares_of_wp (wp_enforceRetention hpos bound₁ h₂ (by omega) ?_
    (fun s₃ tr₃ k h₃ hroom htr₃ => ⟨rfl, ?_⟩) fun e s₃ tr₃ k a h₃ => ⟨_, _, h₃⟩))
  · simp
    omega
  simp only [List.length_append, List.length_singleton] at htr₃
  refine prepares_bind (prepares_of_wp ((wp_call j .quota).mpr fun s₄ hs₄ answer => ?_))
  have hk := h₃.le
  cases answer with
  | error f =>
    have h₄ : Standing s₀ s₄ (tr₃ ++ [.ask (j, .quota) (.error f)]) k none :=
      ⟨(h₃.rely hs₄).records, by rw [capacityCourse_concat, h₃.course]; rfl, h₃.le⟩
    refine ⟨⟨h₄.capacityStep nofun, by omega⟩, rfl, ?_⟩
    exact prepares_bind (prepares_of_wp ((wp_ofReply _).mpr ⟨nofun, fun _ _ => ⟨_, _, h₄⟩⟩))
  | ok quota =>
    have h₄ : Standing s₀ s₄ (tr₃ ++ [.ask (j, .quota) (.ok quota)]) k (some quota.freeBytes) :=
      ⟨(h₃.rely hs₄).records, by rw [capacityCourse_concat, h₃.course]; rfl, h₃.le⟩
    refine ⟨⟨h₄.capacityStep nofun, by omega⟩, rfl, ?_⟩
    refine prepares_bind (prepares_of_wp ((wp_ofReply _).mpr ⟨fun q hq => ⟨rfl, ?_⟩, nofun⟩))
    obtain rfl : quota = q := Except.ok.inj hq
    refine prepares_bound h₄ (by simp; omega) fun s₅ bound₂ hbound₂ h₅ => ?_
    refine prepares_bind (prepares_of_wp (wp_enforceQuota bound₂ h₅ (by omega) ?_
      (fun s₆ tr₆ k₆ a h₆ hk₆ htr₆ => ⟨rfl, ?_⟩) fun e s₆ tr₆ k a h₆ => ⟨_, _, h₆⟩))
    · simp
      omega
    · refine prepares_of_wp ((wp_raiseIf _ _).mpr ⟨fun _ => ⟨_, _, h₆⟩, fun henough => ⟨rfl, ?_⟩⟩)
      exact hQ s₆ tr₆ k₆ a h₆ (by omega) (by omega)

end Preparation

section Termination

open Exec hiding bind ask poised_bind

variable {α β : Type} {s₀ s : World} {tr : List Ev} {k retention requiredBytes : ℕ}
  {available : Option ℕ} {ℓ : L}

/-- In no run that has room for its loops does a body come to the end of a bound. -/
def Halts (s₀ : World) (x : Py L α) (ℓ : L) (s : World) (tr : List Ev) : Prop :=
  (x ℓ).Poised SameRows (fun tr c => Ample s₀ tr → c.2 ≠ .never) s tr

/-- A value halts. -/
theorem halts_pure (a : α) : Halts s₀ (pure a : Py L α) ℓ s tr := trivial

/-- So does a computation. -/
theorem halts_ofExcept (r : Except Exn α) : Halts s₀ (Exec.ofExcept r : Py L α) ℓ s tr := by
  cases r with
  | ok a => exact trivial
  | error e => exact trivial

/-- So does a guard. -/
theorem halts_raiseIf (p : Prop) [Decidable p] (e : Exn) :
    Halts s₀ (Exec.raiseIf p e : Py L Unit) ℓ s tr := by
  by_cases h : p
  · rw [Exec.raiseIf, if_pos h]
    exact trivial
  · rw [Exec.raiseIf, if_neg h]
    exact trivial

/-- So does a call that is answered. -/
theorem halts_ask {c : Call} (hc : c ≠ .never) : Halts s₀ (ask j c : Py L (Reply c)) ℓ s tr :=
  ⟨fun _ => hc, fun _ _ _ => trivial⟩

/-- So does a transaction. -/
theorem halts_tx (f : World → α × World) (label : α → Label) :
    Halts s₀ (Exec.tx f label : Py L α) ℓ s tr :=
  fun _ _ => trivial

/-- What comes after a statement comes where it ends. -/
theorem halts_bind_of_wp {x : Py L α} {f : α → Py L β} {bound : ℕ}
    {Q : α → L → World → List Ev → Prop} (hx : Halts s₀ x ℓ s tr)
    (hw : wp SameRows (capacitySteps s₀ j retention requiredBytes bound) x Q
      (fun _ _ _ _ => True) ℓ s tr)
    (hf : ∀ a ℓ s tr, Q a ℓ s tr → Halts s₀ (f a) ℓ s tr) : Halts s₀ (x >>= f) ℓ s tr :=
  Exec.poised_bind hx hw hf

/-- So do two statements that halt. -/
theorem halts_bind {x : Py L α} {f : α → Py L β} (hx : Halts s₀ x ℓ s tr)
    (hf : ∀ a ℓ s tr, Halts s₀ (f a) ℓ s tr) : Halts s₀ (x >>= f) ℓ s tr := by
  have hw : wp SameRows (fun _ _ _ _ => True) x (fun _ _ _ _ => True) (fun _ _ _ _ => True) ℓ s tr := by
    unfold Exec.wp
    refine Prog.safe_of_forall (fun _ _ _ _ => trivial) fun r s tr => ?_
    obtain ⟨r | r, ℓ⟩ := r <;> simp [Exec.outcome]
  exact Exec.poised_bind hx hw fun a ℓ s tr _ => hf a ℓ s tr

/-- So does a session. -/
theorem halts_session (f : World → Except Exn (α × World)) (label : α → Label) :
    Halts s₀ (session f label : Py L α) ℓ s tr :=
  halts_bind (halts_tx _ _) fun _ _ _ _ => halts_ofExcept _

/-- So does a query. -/
theorem halts_query (f : World → Except Exn α) : Halts s₀ (query f : Py L α) ℓ s tr :=
  halts_session _ _

/-- So does a remote delete. -/
theorem halts_transferDelete (record : BackupRecord) :
    Halts s₀ (transferDelete j record : Py L Unit) ℓ s tr := by
  unfold transferDelete validateRemoteRecord
  refine halts_bind ?_ fun _ ℓ s tr => ?_
  · cases record.remoteContent with
    | none => exact halts_ofExcept (.error _)
    | some content => exact halts_pure content
  · refine halts_bind (halts_raiseIf _ _) fun _ ℓ s tr => ?_
    refine halts_bind (halts_ask nofun) fun change ℓ s tr => ?_
    refine halts_bind (halts_tx _ _) fun _ ℓ s tr => ?_
    cases change with
    | done => exact halts_pure ()
    | failed f happened => exact halts_raiseIf _ _

/-- So does the removal of the oldest record. -/
theorem halts_removeOldestManagedRemote :
    Halts s₀ (removeOldestManagedRemote j : Py L ℕ) ℓ s tr := by
  refine halts_bind (halts_query _) fun oldest ℓ s tr => ?_
  cases oldest with
  | none => exact halts_pure 0
  | some r =>
    refine halts_bind (halts_transferDelete r.2) fun _ ℓ s tr => ?_
    exact halts_bind (halts_session _ _) fun _ ℓ s tr => halts_pure _

/-- The count, and what follows it. -/
theorem halts_managedRemoteCount {f : ℕ → Py L α} (h : Standing s₀ s tr k available)
    (hf : ∀ ℓ s₁, Standing s₀ s₁ (tr ++ [.tx .read]) k available →
      Halts s₀ (f ((oldestRemote s₀).length - k)) ℓ s₁ (tr ++ [.tx .read])) :
    Halts s₀ (managedRemoteCount >>= f) ℓ s tr := by
  have hcount : wp SameRows (capacitySteps s₀ 0 0 0 (tr.length + 1)) managedRemoteCount
      (fun c _ s₁ tr₁ => c = (oldestRemote s₀).length - k ∧ tr₁ = tr ++ [.tx .read] ∧
        Standing s₀ s₁ tr₁ k available) (fun _ _ _ _ => True) ℓ s tr :=
    wp_managedRemoteCount h (Nat.lt_succ_self _) (fun s₁ h₁ => ⟨rfl, rfl, h₁⟩) fun _ _ _ _ => trivial
  refine halts_bind_of_wp (halts_query _) hcount fun c ℓ s₁ tr₁ ⟨hc, htr₁, h₁⟩ => ?_
  subst hc htr₁
  exact hf ℓ s₁ h₁

/-- A removal, and what follows it with one record less. -/
theorem halts_removeOldest_bind {f : ℕ → Py L α} (h : Standing s₀ s tr k available)
    (hk : k < (oldestRemote s₀).length)
    (hf : ∀ ℓ s₁ tr₁, Standing s₀ s₁ tr₁ (k + 1) available →
      Halts s₀ (f (removedBytes (oldestRemote s₀) k)) ℓ s₁ tr₁) :
    Halts s₀ (removeOldestManagedRemote j >>= f) ℓ s tr := by
  have hremove : wp SameRows (capacitySteps s₀ j 0 0 (tr.length + 4)) (removeOldestManagedRemote j)
      (fun c _ s₁ tr₁ => c = removedBytes (oldestRemote s₀) k ∧ Standing s₀ s₁ tr₁ (k + 1) available)
      (fun _ _ _ _ => True) ℓ s tr :=
    wp_removeOldestManagedRemote h hk le_rfl (.inl (Nat.zero_le _)) (fun s₁ tr₁ h₁ _ => ⟨rfl, h₁⟩)
      fun _ _ _ _ _ => trivial
  refine halts_bind_of_wp halts_removeOldestManagedRemote hremove fun c ℓ s₁ tr₁ ⟨hc, h₁⟩ => ?_
  subst hc
  exact hf ℓ s₁ tr₁ h₁

/-- A query, and what follows it. -/
theorem halts_query_bind {f : World → Except Exn α} {g : α → Py L β}
    (h : Standing s₀ s tr k available)
    (hg : ∀ a ℓ s₁ tr₁, f s₁ = .ok a → Standing s₀ s₁ tr₁ k available → Halts s₀ (g a) ℓ s₁ tr₁) :
    Halts s₀ (query f >>= g) ℓ s tr := by
  have hquery : wp SameRows (capacitySteps s₀ 0 0 0 (tr.length + 1)) (query f)
      (fun a _ s₁ tr₁ => f s₁ = .ok a ∧ Standing s₀ s₁ tr₁ k available)
      (fun _ _ _ _ => True) ℓ s tr :=
    wp_capacity_query h (Nat.lt_succ_self _) (fun s₁ a _ ha h₁ => ⟨ha, h₁⟩) fun _ _ _ _ => trivial
  exact halts_bind_of_wp (halts_query _) hquery fun a ℓ s₁ tr₁ h₁ => hg a ℓ s₁ tr₁ h₁.1 h₁.2

/-- A guard, and what follows it. -/
theorem halts_raiseIf_bind {p : Prop} [Decidable p] {e : Exn} {f : Unit → Py L α}
    (hf : Halts s₀ (f ()) ℓ s tr) : Halts s₀ (Exec.raiseIf p e >>= f) ℓ s tr := by
  by_cases h : p
  · rw [Exec.raiseIf, if_pos h]
    exact trivial
  · rw [Exec.raiseIf, if_neg h]
    exact hf

/-- The estimate after an answer about the quota. -/
def nextEstimate (rs : List (ℕ × BackupRecord)) (k : ℕ) (available : Option ℕ) (quota : DriveQuota) :
    ℕ :=
  match available with
  | none => quota.freeBytes
  | some a => max (a + removedBytes rs (k - 1)) quota.freeBytes

/-- The quota, and what follows it with the new estimate. -/
theorem halts_quota_bind {f : DriveQuota → Py L α} (h : Standing s₀ s tr k available)
    (hf : ∀ quota s₁ tr₁,
      Standing s₀ s₁ tr₁ k (some (nextEstimate (oldestRemote s₀) k available quota)) →
      Halts s₀ (f quota) ℓ s₁ tr₁) :
    Halts s₀ (ask j .quota >>= fun r => ofReply r >>= f) ℓ s tr := by
  refine ⟨fun _ => nofun, fun s₁ hs₁ r => ?_⟩
  cases r with
  | error e => exact trivial
  | ok quota =>
    refine hf quota s₁ _ ⟨(h.rely hs₁).records, ?_, h.le⟩
    rw [capacityCourse_concat, h.course]
    rfl

/-- **The loop of the retention ends**: each round leaves one record less. -/
theorem halts_enforceRetention (hpos : 1 ≤ retention) (n : ℕ) {ℓ : L} {s : World} {tr : List Ev}
    {k : ℕ} (h : Standing s₀ s tr k none) (hn : (oldestRemote s₀).length - k < n) :
    Halts s₀ (enforceRetention j retention n : Py L Unit) ℓ s tr := by
  induction n generalizing s tr k ℓ with
  | zero => omega
  | succ n ih =>
    refine halts_managedRemoteCount h fun ℓ s₁ h₁ => ?_
    split_ifs with hfull
    · exact halts_removeOldest_bind h₁ (by omega) fun ℓ s₂ tr₂ h₂ => ih h₂ (by omega)
    · exact halts_pure ()

/-- **The loop of the quota ends**, for the same reason. -/
theorem halts_enforceQuota (n : ℕ) {ℓ : L} {s : World} {tr : List Ev} {k a : ℕ}
    (h : Standing s₀ s tr k (some a)) (hn : (oldestRemote s₀).length - k < n) :
    Halts s₀ (enforceQuota j requiredBytes n a : Py L ℕ) ℓ s tr := by
  induction n generalizing s tr k a ℓ with
  | zero => omega
  | succ n ih =>
    rw [enforceQuota]
    split_ifs with hsmall
    · refine halts_managedRemoteCount h fun ℓ s₁ h₁ => ?_
      split_ifs with hleft
      · refine halts_query_bind h₁ fun cancel ℓ s₂ tr₂ _ h₂ => halts_raiseIf_bind ?_
        refine halts_removeOldest_bind h₂ (by omega) fun ℓ s₃ tr₃ h₃ => ?_
        refine halts_quota_bind h₃ fun quota s₄ tr₄ h₄ => ih h₄ (by omega)
      · exact halts_pure a
    · exact halts_pure a

/-- A loop asks for its bound. -/
theorem halts_bound {f : ℕ → Py L α} (h : Standing s₀ s tr k available)
    (hf : ∀ s₁ n, (oldestRemote s₀).length < n →
      Standing s₀ s₁ (tr ++ [.ask (j, .bound) n]) k available →
      Halts s₀ (f n) ℓ s₁ (tr ++ [.ask (j, .bound) n])) :
    Halts s₀ (ask j .bound >>= f) ℓ s tr := by
  refine ⟨fun _ => nofun, fun s₁ hs₁ n => ?_⟩
  by_cases hn : (oldestRemote s₀).length < n
  · exact hf s₁ n hn ((h.rely hs₁).idle rfl rfl)
  · have hno : ¬Ample s₀ (tr ++ [.ask (j, .bound) n]) := fun hample => hn hample.last
    exact Prog.poised_of_past (fun _ _ hno hyes => hno hyes.past)
      (fun _ _ hno hyes => absurd hyes hno) hno

/-- **No loop of a preparation comes to the end of its bound.** -/
theorem halts_prepareCapacity (h : Standing s₀ s tr 0 none) :
    Halts s₀ (prepareCapacity j requiredBytes : Py L Unit) ℓ s tr := by
  refine halts_query_bind h fun retention ℓ s₁ tr₁ hretention h₁ => ?_
  have hpos := configuredDriveRetention_pos hretention
  refine halts_bound h₁ fun s₂ bound hbound h₂ => ?_
  set tr₂ := tr₁ ++ [Event.ask (j, Call.bound) bound]
  have hloop : wp SameRows (capacitySteps s₀ j retention requiredBytes
        (tr₂.length + 5 * ((oldestRemote s₀).length - 0) + 1))
      (enforceRetention j retention bound) (fun _ _ s tr => ∃ k, Standing s₀ s tr k none)
      (fun _ _ _ _ => True) ℓ s₂ tr₂ :=
    wp_enforceRetention hpos bound h₂ (by omega) le_rfl (fun s₃ tr₃ k h₃ _ _ => ⟨k, h₃⟩)
      fun _ _ _ _ _ _ => trivial
  refine halts_bind_of_wp (halts_enforceRetention hpos bound h₂ (by omega)) hloop ?_
  rintro - ℓ s₃ tr₃ ⟨k, h₃⟩
  refine halts_quota_bind h₃ fun quota s₄ tr₄ h₄ => ?_
  refine halts_bound h₄ fun s₅ bound₂ hbound₂ h₅ => ?_
  exact halts_bind (halts_enforceQuota bound₂ h₅ (by omega)) fun _ _ _ _ => halts_raiseIf _ _

end Termination

section Outcome

open Exec hiding bind ask poised_bind

variable {s₀ s s' : World} {tr : List Ev} {retention requiredBytes : ℕ} {ℓ : L}
  {p : Prog World Label Asked (fun a => Reply a.2) (Except Exn Unit × L)}

/-- What is managed is counted in the rows. -/
theorem length_managedRemoteRecords (s : World) : (managedRemoteRecords s).length =
    (s.backups.rows.filter fun r => (r.2.storagePath == r.2.filename &&
      isBackupFilename r.2.filename) && (r.2.location == .drive && r.2.isValid)).length := by
  rw [managedRemoteRecords, World.validRecords, Table.select,
    ((List.perm_insertionSort _ _).filter _).length_eq, List.filter_filter]

/-- An insert makes at most one more managed remote record. -/
theorem length_managedRemoteRecords_insertRecord {id : ℕ} {record : BackupRecord}
    (h : s.insertRecord id record = .ok s') :
    (managedRemoteRecords s').length ≤ (managedRemoteRecords s).length + 1 := by
  obtain ⟨hfree, -, rfl⟩ := insertRecord_eq_ok h
  rw [length_managedRemoteRecords, length_managedRemoteRecords, Table.insertAt, List.filter_append,
    List.length_append]
  exact Nat.add_le_add_left (List.length_filter_le _ _) _

/-- An upload adds one record at most. -/
theorem length_managedRemoteRecords_commitUpload {result : Dict} {remote : DriveFile}
    {createdAt : ℕ} {x : JobStatus × JobStatus}
    (h : commitUpload j result remote createdAt s = .ok (x, s')) :
    (managedRemoteRecords s').length ≤ (managedRemoteRecords s).length + 1 := by
  obtain ⟨job, s₁, values, -, -, hinsert, rfl⟩ := commitUpload_eq_ok h
  have hle := length_managedRemoteRecords_insertRecord hinsert
  exact hle

/-- What a preparation of capacity has done by any point of a run: it can go on until it
ends, within a number of steps; it has removed the oldest records, each after the remote had
deleted its file and only while there was need; and if it has returned there is room within
the retention. -/
structure CapacityOutcome (s₀ : World) (j : JobId) (retention requiredBytes : ℕ) (tr : List Ev)
    (s : World) (p : Prog World Label Asked (fun a => Reply a.2) (Except Exn Unit × L)) :
    Prop where
  progress : (∃ r, p = .ret r) ∨ ∃ e s' p', Prog.Step s p e s' p'
  steps : tr.length ≤ 7 * (oldestRemote s₀).length + 6
  records : s.backups = withoutOldest s₀ (capacityCourse (oldestRemote s₀) tr).removed
  removals : ∀ before i after, tr = before ++ .tx (.records i) :: after →
    RemovesOldest (oldestRemote s₀) j retention requiredBytes before
  room : ∀ ℓ, p = .ret (.ok (), ℓ) → (managedRemoteRecords s).length < retention ∧
    ∀ result remote createdAt x s', commitUpload j result remote createdAt s = .ok (x, s') →
      (managedRemoteRecords s').length ≤ retention

/-- Every call but one may answer. -/
theorem nonempty_reply {c : Call} (hc : c ≠ .never) : Nonempty (Reply c) := by
  cases c with
  | never => exact absurd rfl hc
  | now => exact ⟨(0 : ℕ)⟩
  | bound => exact ⟨(0 : ℕ)⟩
  | identity => exact ⟨(⟨0, "", ""⟩ : BackupIdentity)⟩
  | appendLog message => exact ⟨true⟩
  | moveto source target => exact ⟨RemoteChange.done⟩
  | deletefile name => exact ⟨RemoteChange.done⟩
  -- all the others may fail
  | _ => exact ⟨.error .other⟩

/-- **Drive capacity preparation**, at any point of any run whose loops have room. -/
theorem prepareCapacity_outcome (hretention : configuredDriveRetention s₀ = .ok retention)
    (hrun : Prog.Run SameRows s₀ (prepareCapacity j requiredBytes ℓ) tr s p)
    (hample : Ample s₀ tr) : CapacityOutcome s₀ j retention requiredBytes tr s p := by
  have hrefl : ∀ s, SameRows s s := fun s => ⟨rfl, rfl, rfl⟩
  have htrans : ∀ a b c, SameRows a b → SameRows b c → SameRows a c := fun a b c h h' =>
    ⟨h'.backups.trans h.backups, h'.settings.trans h.settings, h'.timezones.trans h.timezones⟩
  set bound := 7 * (oldestRemote s₀).length + 6 with hbound
  have hprepares : Prepares s₀ j retention requiredBytes bound (prepareCapacity j requiredBytes)
      (fun _ s tr => ∃ k a, Standing s₀ s tr k a ∧ (oldestRemote s₀).length - k < retention)
      ℓ s₀ [] :=
    prepares_prepareCapacity hretention (hrefl s₀) (standing_start s₀) (by simp [hbound])
      fun s₁ tr₁ k a h₁ hroom _ => ⟨k, some a, h₁, hroom⟩
  have hstable : ∀ (r : Except Exn Unit × L) s s' tr, SameRows s s' →
      outcome (fun (_ : Unit) ℓ' s tr => Ample s₀ tr → ℓ' = ℓ ∧ ∃ k a, Standing s₀ s tr k a ∧
        (oldestRemote s₀).length - k < retention)
        (fun _ _ s tr => Ample s₀ tr → ∃ k a, Standing s₀ s tr k a) r s tr →
      outcome (fun (_ : Unit) ℓ' s tr => Ample s₀ tr → ℓ' = ℓ ∧ ∃ k a, Standing s₀ s tr k a ∧
        (oldestRemote s₀).length - k < retention)
        (fun _ _ s tr => Ample s₀ tr → ∃ k a, Standing s₀ s tr k a) r s' tr := by
    rintro ⟨r | r, ℓ'⟩ s s' tr hs h ha
    · obtain ⟨k, a, hstanding⟩ := h ha
      exact ⟨k, a, hstanding.rely hs⟩
    · obtain ⟨hℓ, k, a, hstanding, hroom⟩ := h ha
      exact ⟨hℓ, k, a, hstanding.rely hs, hroom⟩
  have hsafe := hrun.safe hrefl htrans hstable (safe_of_wp hprepares)
  have hinvariant : Ample s₀ tr → s.backups =
      withoutOldest s₀ (capacityCourse (oldestRemote s₀) tr).removed ∧ tr.length ≤ bound := by
    refine hrun.invariant (I := fun s tr => Ample s₀ tr → s.backups =
      withoutOldest s₀ (capacityCourse (oldestRemote s₀) tr).removed ∧ tr.length ≤ bound)
      hrefl htrans hstable ?_ ?_ ?_ (safe_of_wp hprepares)
    · exact fun s s' tr hs h ha => ⟨hs.backups.trans (h ha).1, (h ha).2⟩
    · intro s tr e s' hG ha
      refine ⟨(hG ha).1.records, ?_⟩
      rw [List.length_append, List.length_singleton]
      exact (hG ha).2
    · exact fun _ => ⟨(standing_start s₀).records, Nat.zero_le _⟩
  obtain ⟨hrecords, hsteps⟩ := hinvariant hample
  have hevents := hrun.events (Γ := fun tr e => Ample s₀ (tr ++ [e]) → ∀ i, e = .tx (.records i) →
    RemovesOldest (oldestRemote s₀) j retention requiredBytes tr) hrefl htrans hstable
    (fun _ _ _ _ hG ha => (hG ha).1.removal) (safe_of_wp hprepares)
  refine ⟨?_, hsteps, hrecords, fun before i after heq => ?_, fun ℓ' hend => ?_⟩
  · have hposed := hrun.poised hrefl htrans
      (halts_prepareCapacity (standing_start s₀))
    exact hposed.exists_step fun c hc => nonempty_reply (hc hample)
  · refine hevents before _ after heq (fun k n hmem => hample k n ?_) i rfl
    rw [heq, List.append_cons]
    exact List.mem_append_left _ hmem
  · subst hend
    obtain ⟨-, k, a, hstanding, hroom⟩ := hsafe hample
    have hcount := hstanding.length_managedRemoteRecords
    refine ⟨by omega, fun result remote createdAt x s' hcommit => ?_⟩
    have hone := length_managedRemoteRecords_commitUpload hcommit
    omega

section Sample

/-- The record of a remote backup made on some day. -/
def sampleRemote (day : String) (createdAt : ℕ) : BackupRecord :=
  { sampleRecord day createdAt with location := .drive, storagePath := sampleFilename day }

/-- Remote backups, and a retention of them. -/
def remoteWorld (records : Table BackupRecord) (retention : ℕ) : World :=
  { World.withRecords records [("drive_backup_retention", .int retention)] with
    timezones := ["America/Sao_Paulo"] }

def twoRemote : World :=
  remoteWorld ⟨[(1, sampleRemote "01" 1), (2, sampleRemote "02" 2)], by decide⟩ 2

/-- The answers of a Drive that deletes what it is asked to, and has room. -/
def roomyDrive : (c : Asked) → Option (Reply c.2)
  | (_, .bound) => some (10 : ℕ)
  | (_, .deletefile _) => some RemoteChange.done
  | (_, .quota) => some (.ok ⟨100, 0, 100, 0⟩)
  | _ => none

/-- Whether the bounds of a trace are above the number of records. -/
def isAmple (s₀ : World) (tr : List Ev) : Bool :=
  tr.all fun
    | .ask (_, .bound) n => decide ((oldestRemote s₀).length < n)
    | _ => true

/-- Room is decided by the answers in the trace. -/
theorem ample_of_isAmple (h : isAmple s₀ tr = true) : Ample s₀ tr :=
  fun i n hmem => of_decide_eq_true (List.all_eq_true.mp h (.ask (i, .bound) n) hmem)

/-- Two remote records, and room for one more of two: the older is removed. -/
theorem prepareCapacity_outcome_twoRemote :
    ∃ tr s, CapacityOutcome twoRemote 1 2 5 tr s (.ret (.ok (), ())) ∧
      (managedRemoteRecords s).length = 1 := by
  have heval : (Prog.complete roomyDrive 100 twoRemote (prepareCapacity 1 5 ())).any
      (fun r => isAmple twoRemote r.1 && r.2.2.1.isOk &&
        decide ((managedRemoteRecords r.2.1).length = 1)) = true := by
    decide +kernel
  obtain ⟨⟨tr, s, r, ℓ⟩, hr, hcheck⟩ := exists_some heval
  simp only [Bool.and_eq_true, decide_eq_true_eq] at hcheck
  obtain ⟨⟨hample, hok⟩, hleft⟩ := hcheck
  cases r with
  | error e => cases hok
  | ok u =>
    exact ⟨tr, s, prepareCapacity_outcome rfl (Prog.complete_run SameRows hr)
      (ample_of_isAmple hample), hleft⟩

end Sample

end Outcome

end PalworldManager
