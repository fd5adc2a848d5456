/-
# Tables with an integer primary key

A `Table α` is a list of rows with their identifiers, no identifier occurring
twice: the invariant is a field, so an ambiguous table cannot be built.  The
operations are those of the statements the program issues: a lookup by primary
key, an insert that takes the next free identifier, an insert under an
identifier taken earlier, an update of one row, an update of every row, a
delete by condition, and a selection in an order.  Each comes with its effect
on `get`, which is all that the proofs about a table use.
-/

import Mathlib.Data.List.Sort
import Mathlib.Data.List.Nodup
import Mathlib.Data.Nat.Notation

namespace Effects

/-- Rows of type `α` under distinct integer identifiers. -/
structure Table (α : Type) where
  rows : List (ℕ × α)
  nodup : (rows.map Prod.fst).Nodup

namespace Table

variable {α : Type}

/-- The table with no rows. -/
def empty : Table α := ⟨[], List.nodup_nil⟩

/-- The row under an identifier. -/
def get (t : Table α) (k : ℕ) : Option α := t.rows.lookup k

/-- One more than the largest identifier, the one the next insert takes. -/
def nextId (t : Table α) : ℕ := (t.rows.map Prod.fst).foldr max 0 + 1

/-- Replace every row by its image. -/
def mapRows (t : Table α) (f : ℕ → α → α) : Table α :=
  ⟨t.rows.map fun r => (r.1, f r.1 r.2), by simpa [List.map_map, Function.comp_def] using t.nodup⟩

/-- Update the row under one identifier. -/
def modify (t : Table α) (k : ℕ) (f : α → α) : Table α :=
  t.mapRows fun i a => if i = k then f a else a

/-- Keep the rows that meet a condition. -/
def keep (t : Table α) (p : ℕ → α → Bool) : Table α :=
  ⟨t.rows.filter fun r => p r.1 r.2, t.nodup.sublist (List.filter_sublist.map _)⟩

/-- Delete the row under one identifier. -/
def delete (t : Table α) (k : ℕ) : Table α := t.keep fun i _ => i ≠ k

/-- The rows that meet a condition, in the order of `r`. -/
def select (t : Table α) (p : ℕ → α → Bool) (r : ℕ × α → ℕ × α → Prop)
    [DecidableRel r] : List (ℕ × α) :=
  (t.rows.filter fun x => p x.1 x.2).insertionSort r

/-- **The rows of a table are what it has under its keys.** -/
theorem mem_rows_iff {t : Table α} {k : ℕ} {a : α} : (k, a) ∈ t.rows ↔ t.get k = some a := by
  obtain ⟨rows, hnd⟩ := t
  simp only [get]
  induction rows with
  | nil => simp
  | cons r rows ih =>
    obtain ⟨i, b⟩ := r
    obtain ⟨hi, hnd'⟩ := List.nodup_cons.mp hnd
    rw [List.lookup_cons, List.mem_cons, ih hnd']
    by_cases hk : k = i
    · subst hk
      have hnone : rows.lookup k ≠ some a := fun h =>
        hi (List.mem_map.mpr ⟨(k, a), (ih hnd').mpr h, rfl⟩)
      simp [hnone, eq_comm]
    · simp [hk, beq_false_of_ne hk]

/-- There is nothing under what is no key. -/
theorem get_eq_none_iff {t : Table α} {k : ℕ} :
    t.get k = none ↔ k ∉ t.rows.map Prod.fst := by
  rw [get, List.lookup_eq_none_iff]
  constructor
  · rintro h hk
    obtain ⟨r, hr, rfl⟩ := List.mem_map.mp hk
    simpa using h r hr
  · intro h r hr
    refine bne_iff_ne.mpr fun hk => h (List.mem_map.mpr ⟨r, hr, hk.symm⟩)

/-- No number is above the largest. -/
theorem le_foldr_max (l : List ℕ) : ∀ k ∈ l, k ≤ l.foldr max 0 := by
  induction l with
  | nil => simp
  | cons i l ih =>
    intro k hk
    rcases List.mem_cons.mp hk with rfl | hk
    · exact Nat.le_max_left _ _
    · exact (ih k hk).trans (Nat.le_max_right _ _)

/-- The identifier of an insert is above those that are there. -/
theorem lt_nextId {t : Table α} {k : ℕ} {a : α} (h : t.get k = some a) : k < t.nextId :=
  Nat.lt_succ_of_le (le_foldr_max _ k (List.mem_map_of_mem (mem_rows_iff.mpr h)))

/-- The next key is new. -/
theorem get_nextId (t : Table α) : t.get t.nextId = none := by
  cases h : t.get t.nextId with
  | none => rfl
  | some a => exact absurd (lt_nextId h) (Nat.lt_irrefl _)

/-- Insert a row under an identifier that no row has. -/
def insertAt (t : Table α) (k : ℕ) (a : α) (h : t.get k = none) : Table α :=
  ⟨t.rows ++ [(k, a)], by
    rw [List.map_append, List.nodup_append]
    exact ⟨t.nodup, List.nodup_singleton _, by
      rintro i hi j hj rfl
      obtain rfl : i = k := by simpa using hj
      exact get_eq_none_iff.mp h hi⟩⟩

/-- Insert a row under the next free identifier. -/
def add (t : Table α) (a : α) : Table α := t.insertAt t.nextId a t.get_nextId

/-- The empty table has nothing. -/
@[simp]
theorem get_empty (k : ℕ) : (empty : Table α).get k = none := rfl

/-- A row that every row is mapped with. -/
@[simp]
theorem get_mapRows (t : Table α) (f : ℕ → α → α) (k : ℕ) :
    (t.mapRows f).get k = (t.get k).map (f k) := by
  obtain ⟨rows, hnd⟩ := t
  simp only [get, mapRows]
  clear hnd
  induction rows with
  | nil => rfl
  | cons r rows ih =>
    rw [List.map_cons, List.lookup_cons, List.lookup_cons]
    by_cases hk : k = r.1
    · simp [hk]
    · simp [beq_false_of_ne hk, ih]

/-- The row that is modified. -/
@[simp]
theorem get_modify_self (t : Table α) (k : ℕ) (f : α → α) :
    (t.modify k f).get k = (t.get k).map f := by
  simp [modify]

/-- The other rows stay. -/
@[simp]
theorem get_modify_ne (t : Table α) {k i : ℕ} (h : i ≠ k) (f : α → α) :
    (t.modify k f).get i = t.get i := by
  simp [modify, h]

/-- A row after one was modified. -/
theorem get_modify (t : Table α) (k i : ℕ) (f : α → α) :
    (t.modify k f).get i = if i = k then (t.get i).map f else t.get i := by
  by_cases h : i = k
  · subst h
    simp
  · simp [h]

/-- A row after one was inserted under a new key. -/
theorem get_insertAt (t : Table α) (k : ℕ) (a : α) (h : t.get k = none) (i : ℕ) :
    (t.insertAt k a h).get i = if i = k then some a else t.get i := by
  simp only [get, insertAt, List.lookup_append, List.lookup_cons, List.lookup_nil]
  by_cases hi : i = k
  · subst hi
    simp only [get] at h
    simp [h]
  · simp [hi, beq_false_of_ne hi]

/-- A row after one was added. -/
theorem get_add (t : Table α) (a : α) (i : ℕ) :
    (t.add a).get i = if i = t.nextId then some a else t.get i :=
  t.get_insertAt _ a _ i

/-- What was there stays. -/
theorem get_add_of_some {t : Table α} {a b : α} {i : ℕ} (h : t.get i = some b) :
    (t.add a).get i = some b := by
  rw [get_add, if_neg, h]
  rintro rfl
  simp [get_nextId] at h

/-- What was added is under the key that was next. -/
@[simp]
theorem get_add_nextId (t : Table α) (a : α) : (t.add a).get t.nextId = some a := by
  rw [get_add, if_pos rfl]

/-- A row after some were deleted. -/
theorem get_keep (t : Table α) (p : ℕ → α → Bool) (i : ℕ) :
    (t.keep p).get i = (t.get i).filter (p i) := by
  refine Option.ext fun a => ?_
  rw [← mem_rows_iff, Option.filter_eq_some_iff, ← mem_rows_iff]
  simp [keep]

/-- What a query finds is what meets its condition. -/
theorem mem_select {t : Table α} {p : ℕ → α → Bool} {r : ℕ × α → ℕ × α → Prop}
    [DecidableRel r] {k : ℕ} {a : α} :
    (k, a) ∈ t.select p r ↔ t.get k = some a ∧ p k a := by
  rw [select, List.mem_insertionSort, List.mem_filter, mem_rows_iff]

/-- A selection is the only list in its order that holds the selected rows once. -/
theorem select_eq {t : Table α} {p : ℕ → α → Bool} {r : ℕ × α → ℕ × α → Prop} [DecidableRel r]
    [Std.Total r] [IsTrans _ r] (hr : ∀ x y, r x y → r y x → x.1 = y.1) {l : List (ℕ × α)}
    (hl : l.Pairwise r) (hd : l.Nodup) (hm : ∀ k a, (k, a) ∈ l ↔ t.get k = some a ∧ p k a) :
    t.select p r = l := by
  have hmem : ∀ x, x ∈ t.select p r ↔ x ∈ l := fun x => by rw [mem_select, ← hm]
  have hnodup : (t.select p r).Nodup :=
    (List.perm_insertionSort r _).nodup_iff.mpr (t.nodup.of_map.filter _)
  refine List.Perm.eq_of_pairwise (fun x y hx hy hxy hyx => ?_) (List.pairwise_insertionSort r _) hl
    ((List.perm_ext_iff_of_nodup hnodup hd).mpr hmem)
  have hget : t.get x.1 = some x.2 := (mem_select.mp hx).1
  have hget' : t.get y.1 = some y.2 := ((hm _ _).mp hy).1
  have hid := hr x y hxy hyx
  exact Prod.ext hid (Option.some.inj (hget.symm.trans (hid ▸ hget')))

/-- It is found in its order. -/
theorem pairwise_select (t : Table α) (p : ℕ → α → Bool) (r : ℕ × α → ℕ × α → Prop) [DecidableRel r]
    [Std.Total r] [IsTrans _ r] : (t.select p r).Pairwise r :=
  List.pairwise_insertionSort r _

/-- No row is found twice. -/
theorem nodup_select (t : Table α) (p : ℕ → α → Bool) (r : ℕ × α → ℕ × α → Prop) [DecidableRel r] :
    ((t.select p r).map Prod.fst).Nodup :=
  ((List.perm_insertionSort r _).map _).nodup_iff.mpr (t.nodup.sublist (List.filter_sublist.map _))

/-- A selection of the rows that are kept is what is kept of the selection. -/
theorem select_keep {t : Table α} {p q : ℕ → α → Bool} {r : ℕ × α → ℕ × α → Prop} [DecidableRel r]
    [Std.Total r] [IsTrans _ r] (hr : ∀ x y, r x y → r y x → x.1 = y.1) :
    (t.keep q).select p r = (t.select p r).filter fun x => q x.1 x.2 := by
  refine select_eq hr ((t.pairwise_select p r).filter _) ((t.nodup_select p r).of_map.filter _) ?_
  intro k a
  rw [List.mem_filter, mem_select, get_keep, Option.filter_eq_some_iff, and_assoc, and_assoc]
  exact and_congr_right fun _ => and_comm

end Table

end Effects
