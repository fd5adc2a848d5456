/-
# Trees of files

A file system as its calls see it: what stands at each path, a path being the names of its
components.  A `Tree` keeps the invariant that what stands in something stands in a
directory.  The calls that change it make a directory or a file where nothing stands, go on
with a file, rename a directory, or remove what stands at a path with all that is in it; each
says what stands at every path afterwards, and `below` what stands in a directory, by paths
from there on.
-/

import Mathlib.Data.List.Infix

namespace Files

/-- What stands at a path. -/
inductive Node (β : Type) where
  | directory
  | file (content : β)
  | link
  | special
  deriving DecidableEq

namespace Node

variable {β : Type}

/-- Whether a directory stands at a path. -/
def isDirectory : Option (Node β) → Bool
  | some .directory => true
  | _ => false

/-- Whether a regular file stands at a path. -/
def isFile : Option (Node β) → Bool
  | some (.file _) => true
  | _ => false

/-- Whether a symbolic link stands at a path. -/
def isLink : Option (Node β) → Bool
  | some .link => true
  | _ => false

/-- What is a directory. -/
theorem isDirectory_iff {n : Option (Node β)} : isDirectory n = true ↔ n = some .directory := by
  rcases n with _ | (_ | c | _ | _) <;> simp [isDirectory]

/-- What is a file. -/
theorem isFile_iff {n : Option (Node β)} : isFile n = true ↔ ∃ c, n = some (.file c) := by
  rcases n with _ | (_ | c | _ | _) <;> simp [isFile]

end Node

/-- A tree: what stands at each path. -/
structure Tree (κ β : Type) where
  node : List κ → Option (Node β)
  closed : ∀ p k, (node (p ++ [k])).isSome → node p = some .directory

namespace Tree

variable {κ β : Type}

/-- What stands in a directory, by the paths from there. -/
def below (t : Tree κ β) (p : List κ) : List κ → Option (Node β) := fun q => t.node (p ++ q)

/-- A tree with nothing in it but its root. -/
def empty : Tree κ β where
  node
    | [] => some .directory
    | _ :: _ => none
  closed p k h := by cases p <;> simp at h

/-- Whatever stands below a path, a directory stands at it. -/
theorem closed_append {t : Tree κ β} {p q : List κ} (hq : q ≠ [])
    (h : (t.node (p ++ q)).isSome) : t.node p = some .directory := by
  induction q using List.reverseRecOn with
  | nil => exact absurd rfl hq
  | append_singleton q k ih =>
    rw [← List.append_assoc] at h
    have hdirectory := t.closed _ _ h
    rcases q.eq_nil_or_concat with rfl | ⟨q, j, rfl⟩
    · rwa [List.append_nil] at hdirectory
    · exact ih (by simp) (by rw [hdirectory, Option.isSome_some])

/-- Below what is not a directory nothing stands. -/
theorem node_append_eq_none {t : Tree κ β} {p q : List κ} (hp : t.node p ≠ some .directory)
    (hq : q ≠ []) : t.node (p ++ q) = none := by
  by_contra hsome
  exact hp (closed_append hq (Option.isSome_iff_ne_none.mpr hsome))

/-- Whether a path may be put in: it stands in a directory, and is none itself. -/
structure Free (t : Tree κ β) (p : List κ) : Prop where
  ne_nil : p ≠ []
  parent : t.node p.dropLast = some .directory
  node : t.node p ≠ some .directory

/-- It is decided by what stands at the path and above it. -/
theorem free_iff {t : Tree κ β} {p : List κ} : t.Free p ↔
    p ≠ [] ∧ Node.isDirectory (t.node p.dropLast) = true ∧ Node.isDirectory (t.node p) = false := by
  rw [Node.isDirectory_iff, ← Bool.not_eq_true, Node.isDirectory_iff]
  exact ⟨fun h => ⟨h.ne_nil, h.parent, h.node⟩, fun h => ⟨h.1, h.2.1, h.2.2⟩⟩

instance (t : Tree κ β) (p : List κ) : Decidable (t.Free p) := decidable_of_iff _ free_iff.symm

variable [DecidableEq κ]

/-- Put a directory or a file at a path. -/
def put (t : Tree κ β) (p : List κ) (n : Node β) (h : t.Free p) : Tree κ β where
  node q := if q = p then some n else t.node q
  closed q k hsome := by
    have hq : q ≠ p := by
      rintro rfl
      rw [if_neg (by simp), node_append_eq_none h.node (by simp)] at hsome
      cases hsome
    rw [if_neg hq]
    by_cases hk : q ++ [k] = p
    · rw [← h.parent, ← hk, List.dropLast_concat]
    · rw [if_neg hk] at hsome
      exact t.closed q k hsome

/-- Remove what stands at a path, and all that is in it. -/
def remove (t : Tree κ β) (p : List κ) : Tree κ β where
  node q := if p <+: q then none else t.node q
  closed q k hsome := by
    split_ifs at hsome with hprefix
    · cases hsome
    · rw [if_neg fun hq => hprefix (List.prefix_append_of_prefix hq)]
      exact t.closed q k hsome

/-- Whether the directory at `a` may be moved to `b`. -/
structure Movable (t : Tree κ β) (a b : List κ) : Prop where
  directory : t.node a = some .directory
  free : t.node b = none
  ne_nil : b ≠ []
  parent : t.node b.dropLast = some .directory
  outside : ¬ a <+: b

omit [DecidableEq κ] in
/-- What may be moved is decided by what stands at the two paths. -/
theorem movable_iff {t : Tree κ β} {a b : List κ} : t.Movable a b ↔
    Node.isDirectory (t.node a) = true ∧ (t.node b).isNone = true ∧ b ≠ [] ∧
      Node.isDirectory (t.node b.dropLast) = true ∧ ¬ a <+: b := by
  rw [Node.isDirectory_iff, Node.isDirectory_iff, Option.isNone_iff_eq_none]
  exact ⟨fun h => ⟨h.directory, h.free, h.ne_nil, h.parent, h.outside⟩,
    fun h => ⟨h.1, h.2.1, h.2.2.1, h.2.2.2.1, h.2.2.2.2⟩⟩

instance (t : Tree κ β) (a b : List κ) : Decidable (t.Movable a b) :=
  decidable_of_iff _ movable_iff.symm

/-- Move the directory at `a` to `b`. -/
def move (t : Tree κ β) (a b : List κ) (h : t.Movable a b) : Tree κ β where
  node q := if b <+: q then t.node (a ++ q.drop b.length) else if a <+: q then none else t.node q
  closed q k hsome := by
    by_cases hb : b <+: q
    · rw [if_pos hb]
      rw [if_pos (List.prefix_append_of_prefix hb), List.drop_append_of_le_length hb.length_le,
        ← List.append_assoc] at hsome
      exact t.closed _ k hsome
    · rw [if_neg hb]
      by_cases hbk : b <+: q ++ [k]
      · -- `b` itself, whose parent is a directory that is not moved
        obtain rfl : b = q ++ [k] := (List.prefix_concat_iff.mp hbk).resolve_right hb
        rw [if_neg fun ha => h.outside (List.prefix_append_of_prefix ha), ← h.parent,
          List.dropLast_concat]
      · rw [if_neg hbk] at hsome
        split_ifs at hsome with hak
        · cases hsome
        · rw [if_neg fun ha => hak (List.prefix_append_of_prefix ha)]
          exact t.closed q k hsome

section Effect

variable {t : Tree κ β} {p q r : List κ} {n : Node β}

/-- What stands at a path after something was put in. -/
@[simp]
theorem node_put {h : t.Free p} (q : List κ) :
    (t.put p n h).node q = if q = p then some n else t.node q := rfl

/-- What stands at a path after something was removed. -/
@[simp]
theorem node_remove (p q : List κ) : (t.remove p).node q = if p <+: q then none else t.node q := rfl

omit [DecidableEq κ] in
/-- No path is its own parent. -/
theorem dropLast_ne (hp : p ≠ []) : p.dropLast ≠ p := by
  intro hlast
  have hlength := congrArg List.length hlast
  rw [List.length_dropLast] at hlength
  have hpos := List.length_pos_iff.mpr hp
  omega

/-- A file may be put in again. -/
theorem Free.put {content : β} (h : t.Free p) : (t.put p (.file content) h).Free p where
  ne_nil := h.ne_nil
  parent := by
    rw [node_put, if_neg (dropLast_ne h.ne_nil)]
    exact h.parent
  node := by
    rw [node_put, if_pos rfl]
    exact fun hnode => nomatch hnode

/-- Two paths of which neither is in the other. -/
def Apart (p q : List κ) : Prop := ¬ p <+: q ∧ ¬ q <+: p

omit [DecidableEq κ] in
/-- Of two paths apart neither is below the other. -/
theorem Apart.symm (h : Apart p q) : Apart q p := ⟨h.2, h.1⟩

omit [DecidableEq κ] in
/-- Below a path, the same are apart. -/
theorem Apart.append (h : Apart p q) (r : List κ) : ¬ p <+: q ++ r := fun hp =>
  (List.prefix_or_prefix_of_prefix hp (List.prefix_append q r)).elim h.1 h.2

omit [DecidableEq κ] in
/-- Two names in the root are apart. -/
theorem apart_singleton {j k : κ} (h : j ≠ k) : Apart [j] [k] := by
  constructor
  · intro hp
    exact h (by simpa using hp)
  · intro hp
    exact h.symm (by simpa using hp)

/-- What was in the one directory is in the other. -/
theorem below_move_target {a b : List κ} {h : t.Movable a b} :
    (t.move a b h).below b = t.below a := by
  funext r
  change (if b <+: b ++ r then _ else _) = _
  rw [if_pos (List.prefix_append b r), List.drop_left, below]

/-- What is apart from both ends of a move stays. -/
theorem below_move_other {a b : List κ} {h : t.Movable a b} (ha : Apart a q) (hb : Apart b q) :
    (t.move a b h).below q = t.below q := by
  funext r
  change (if b <+: q ++ r then _ else _) = _
  rw [if_neg (hb.append r), if_neg (ha.append r), below]

end Effect

end Tree

end Files
