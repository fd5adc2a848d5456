/-
# POSIX paths

`PurePosixPath`.  It reads a text into a root and the components below it, without those
that are empty or a single dot, so that a text is what its path is written as only when it
has no such component, or is the single dot (`asPosix_ofStr`).
-/

import PalworldManager.Text.Points

namespace Text

/-- The separator of the components of a path. -/
abbrev slash : Point := .ofChar '/'

/-- A full stop. -/
abbrev dot : Point := .ofChar '.'

/-- A path, by its root and the components below it. -/
structure PosixPath where
  root : Str
  tail : List Str
  deriving DecidableEq, Repr

/-- `posixpath.splitroot`: two slashes are a root of their own, one and more than two are the
same root. -/
def splitRoot (value : Str) : Str × Str :=
  if value.take 1 ≠ [slash] then ([], value)
  else if (value.drop 1).take 1 ≠ [slash] ∨ (value.drop 2).take 1 = [slash] then
    ([slash], value.drop 1)
  else (value.take 2, value.drop 2)

namespace PosixPath

/-- `PurePosixPath(value)`. -/
def ofStr (value : Str) : PosixPath where
  root := (splitRoot value).1
  tail := ((splitRoot value).2.splitOn slash).filter fun part => part ≠ [] ∧ part ≠ [dot]

/-- `path.as_posix()`, which is also `str(path)`. -/
def asPosix (path : PosixPath) : Str :=
  let text := path.root ++ [slash].intercalate path.tail
  if text = [] then [dot] else text

/-- `path.is_absolute()`. -/
def isAbsolute (path : PosixPath) : Bool := path.root.head? == some slash

/-- `path.parts`. -/
def parts (path : PosixPath) : List Str :=
  if path.root = [] then path.tail else path.root :: path.tail

variable {value : Str}

/-- A relative path has no root. -/
theorem splitRoot_of_relative (h : value.head? ≠ some slash) : splitRoot value = ([], value) := by
  rw [splitRoot, if_pos]
  cases value with
  | nil => simp
  | cons c rest => simpa using h

/-- A path is absolute if it starts with a slash. -/
theorem isAbsolute_ofStr (value : Str) :
    (ofStr value).isAbsolute = true ↔ value.head? = some slash := by
  constructor
  · intro h
    by_contra hrelative
    rw [isAbsolute, ofStr, splitRoot_of_relative hrelative] at h
    cases h
  · intro h
    obtain ⟨rest, rfl⟩ := List.head?_eq_some_iff.mp h
    rw [isAbsolute, ofStr, splitRoot, if_neg (by simp)]
    split_ifs <;> simp

/-- The components that are kept have no slash in them. -/
theorem not_mem_of_mem_splitOn {part : Str} (h : part ∈ value.splitOn slash) : slash ∉ part := by
  induction value generalizing part with
  | nil =>
    obtain rfl : part = [] := by simpa using h
    exact List.not_mem_nil
  | cons c rest ih =>
    rw [List.splitOn_cons_eq_if_modifyHead] at h
    split_ifs at h with hc
    · rcases List.mem_cons.mp h with rfl | hmem
      · exact List.not_mem_nil
      · exact ih hmem
    · cases hrest : rest.splitOn slash with
      | nil => exact absurd hrest (List.splitOn_ne_nil slash rest)
      | cons first others =>
        rw [hrest] at h ih
        rcases List.mem_cons.mp h with rfl | hmem
        · refine List.not_mem_cons_of_ne_of_not_mem (fun heq => hc ?_) (ih List.mem_cons_self)
          exact beq_iff_eq.mpr heq.symm
        · exact ih (List.mem_cons_of_mem _ hmem)

/-- **A relative text is what its path is written as** if no component of it goes away, or
all of them do and it is the single dot. -/
theorem asPosix_ofStr (h : value.head? ≠ some slash) :
    (ofStr value).asPosix = value ↔
      value = [dot] ∨ ∀ part ∈ value.splitOn slash, part ≠ [] ∧ part ≠ [dot] := by
  have htext : (ofStr value).root ++ [slash].intercalate (ofStr value).tail =
      [slash].intercalate ((value.splitOn slash).filter fun part => part ≠ [] ∧ part ≠ [dot]) := by
    rw [ofStr, splitRoot_of_relative h]
    rfl
  rw [asPosix, htext]
  set kept := (value.splitOn slash).filter fun part => part ≠ [] ∧ part ≠ [dot] with hkept
  constructor
  · intro heq
    split_ifs at heq with hempty
    · exact .inl heq.symm
    · refine .inr ?_
      have hne : kept ≠ [] := fun hnil => hempty (by rw [hnil]; rfl)
      have hsplit : value.splitOn slash = kept := by
        rw [← heq]
        refine List.splitOn_intercalate slash (fun part hpart => ?_) hne
        exact not_mem_of_mem_splitOn (List.mem_of_mem_filter hpart)
      intro part hpart
      rw [hsplit, hkept] at hpart
      simpa using List.of_mem_filter hpart
  · rintro (rfl | hall)
    · decide
    · have hself : kept = value.splitOn slash :=
        List.filter_eq_self.mpr fun part hpart => by simpa using hall part hpart
      have hvalue : value ≠ [] := by
        rintro rfl
        exact (hall [] (by simp)).1 rfl
      rw [hself, List.intercalate_splitOn, if_neg hvalue]

/-- The components of such a text. -/
theorem parts_ofStr (h : value.head? ≠ some slash)
    (hall : ∀ part ∈ value.splitOn slash, part ≠ [] ∧ part ≠ [dot]) :
    (ofStr value).parts = value.splitOn slash := by
  rw [parts, ofStr, splitRoot_of_relative h, if_pos rfl]
  exact List.filter_eq_self.mpr fun part hpart => by simpa using hall part hpart

end PosixPath

end Text
