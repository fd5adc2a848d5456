/-
# Redacting a redacted text

`redact_audit_text` (`audit/service.py`) on what it gave itself, and on what `record_audit_event`
stored, as the history view does (`history.py`).

The placeholder has a blank in it and may stand where a value may, so that a second pass takes
half of it for a value.  A text is `Stable` if that does not happen: the text is cut where the
assignments have their values and at the sensitive values, and no piece with the placeholder
after it looks like an assignment, nor does a sensitive value overlap a placeholder.

A placeholder is heavier than what is replaced, by its blank and then by its length, for all
values but long ones with blanks.  So a second pass that changes nothing replaces nothing
(`spared_of_fixed`), and what a text must be like for that is told by its pieces.
-/

import Mathlib.Algebra.Order.Monoid.Prod
import PalworldManager.Audit.Redaction
import PalworldManager.Text.Pieces

namespace PalworldManager

open Text Text.Pattern

section Model

variable {sensitive : List Str}

/-- The values in the order of the loop, without the placeholder, that would be replaced by
itself. -/
def Arranged.others (arranged : Arranged sensitive) : List Str :=
  arranged.values.filter (· ≠ protectedValue)

/-- The pieces of a text, cut at one value after another. -/
def cut (values : List Str) (ps : List Str) : List Str :=
  values.foldl (fun ps v => ps.flatMap (split v)) ps

/-- Each value in its turn overlaps none of the placeholders between the pieces. -/
def Clear : List Str → List Str → Prop
  | [], _ => True
  | v :: values, ps => Untouched v protectedValue ps ∧ Clear values (ps.flatMap (split v))

/-- A value that overlaps no placeholder, whatever stands around it. -/
def IsApart (v : Str) : Prop := ∀ a b, ¬Touches v a protectedValue b

variable [Alphanumeric]

/-- The pieces of a text between the values of its assignments. -/
def assignmentPieces (s : Str) : List Str :=
  pieces (found (assignment auditWords) (plus isValue)) 0 none s

/-- No assignment stands in the pieces, the placeholder being after each of them but the last. -/
def Unassigned : List Str → Prop
  | [] => True
  | [q] => sensitiveAssignmentPattern.search q = false
  | q :: q' :: ps =>
      sensitiveAssignmentPattern.search (q ++ protectedValue) = false ∧ Unassigned (q' :: ps)

/-- The redaction of a text leaves nothing to be redacted, nor did a value take a part of a
placeholder on the way. -/
structure Stable (arranged : Arranged sensitive) (s : Str) : Prop where
  clear : Clear arranged.others (assignmentPieces s)
  untouched : ∀ v ∈ arranged.others,
    Untouched v protectedValue (cut arranged.others (assignmentPieces s))
  unassigned : Unassigned (cut arranged.others (assignmentPieces s))

/-- Nothing of a text is redacted. -/
structure Spared (arranged : Arranged sensitive) (t : Str) : Prop where
  unassigned : sensitiveAssignmentPattern.search t = false
  values : ∀ v ∈ arranged.others, ¬v <:+: t

end Model

section Assigned

variable [Alphanumeric] {words : Text.Pattern Point} {L : Str → Prop} {before before' : Option Point}
  {a b q t out : Str} {c : Point}

/-- A key, a separator and the beginning of a value stand in a text. -/
def Assigned (L : Str → Prop) (before : Option Point) (t : Str) : Prop :=
  ∃ u keep v rest, t = u ++ (keep ++ v :: rest) ∧ IsKept L (lastOr before u) keep ∧
    isValue v = true

/-- The rules find nothing where nothing is assigned. -/
theorem quiet_iff_not_assigned (hL : KeyLanguage words L) :
    Quiet (found (assignment words) (plus isValue)) before t ↔ ¬Assigned L before t := by
  constructor
  · rintro h ⟨u, keep, v, rest, ht, hkeep, hv⟩
    have hfalse := (found_assignment_eq_none hL).mp (h u _ ht (by simp)) keep v rest hkeep rfl
    rw [hv] at hfalse
    cases hfalse
  · intro h u s hus _
    refine (found_assignment_eq_none hL).mpr fun keep v rest hkeep hs => ?_
    by_contra hv
    exact h ⟨u, keep, v, rest, by rw [hus, hs], hkeep, by simpa using hv⟩

/-- The search of the source is that of the rules. -/
theorem search_eq_false_iff_quiet (t : Str) : sensitiveAssignmentPattern.search t = false ↔
    Quiet (found (assignment auditWords) (plus isValue)) none t :=
  searchFrom_eq_false_iff_quiet (spells_plus isValue) fun hnil => hnil.1 rfl

/-- Only a word character before a key matters. -/
theorem Assigned.of_before (h : Assigned L before t)
    (hbefore : before.any isWordPoint = before'.any isWordPoint) : Assigned L before' t := by
  obtain ⟨u, keep, v, rest, rfl, ⟨key, space, c, space', hkeep, hkey, hspace, hc, hspace', hstart,
    hend⟩, hv⟩ := h
  refine ⟨u, keep, v, rest, rfl, ⟨key, space, c, space', hkeep, hkey, hspace, hc, hspace', ?_,
    hend⟩, hv⟩
  cases u with
  | nil => rwa [lastOr_nil, ← hbefore]
  | cons d u => rwa [lastOr_cons] at hstart ⊢

/-- What has no separator in it has no assignment. -/
theorem not_assigned_of_isAssign (h : ∀ c ∈ t, isAssign c = false) : ¬Assigned L before t := by
  rintro ⟨u, keep, v, rest, rfl, ⟨key, space, c, space', rfl, -, -, hc, -⟩, -⟩
  have hfalse := h c (by simp)
  rw [hc] at hfalse
  cases hfalse

/-- A bracket is no part of a key or of a separator. -/
theorem IsKept.not_mem {keep : Str} (hL : KeyLanguage words L) (h : IsKept L before keep)
    (hc : isKeyPoint c = false) (hspace : c.isSpace = false) (hassign : isAssign c = false) :
    c ∉ keep := by
  obtain ⟨key, space, d, space', rfl, hkey, hblank, hd, hblank', -⟩ := h
  simp only [List.mem_append, List.mem_cons, not_or]
  refine ⟨fun hmem => ?_, fun hmem => ?_, ?_, fun hmem => ?_⟩
  · rw [hL.points _ hkey c hmem] at hc
    cases hc
  · rw [hblank c hmem] at hspace
    cases hspace
  · rintro rfl
    rw [hd] at hassign
    cases hassign
  · rw [hblank' c hmem] at hspace
    cases hspace

/-- **An assignment stands before a bracket, with the bracket for its value at most, or after
it.** -/
theorem assigned_append_cons (hL : KeyLanguage words L) (hc : isKeyPoint c = false)
    (hspace : c.isSpace = false) (hassign : isAssign c = false) :
    Assigned L before (a ++ c :: b) ↔ Assigned L before (a ++ [c]) ∨ Assigned L (some c) b := by
  constructor
  · rintro ⟨u, keep, v, rest, htext, hkeep, hv⟩
    have hmem := hkeep.not_mem hL hc hspace hassign
    have hcons {s : Str} (hs : c :: b = s ++ v :: rest) (hnot : c ∉ s) :
        s = [] ∧ v = c := by
      cases s with
      | nil => exact ⟨rfl, (List.cons.inj hs).1.symm⟩
      | cons d s =>
        obtain ⟨rfl, -⟩ := List.cons.inj hs
        simp at hnot
    obtain ⟨s, rfl, hrest⟩ | ⟨s, rfl, hrest⟩ := List.append_eq_append_iff.mp htext
    · -- the assignment begins after `a`
      cases s with
      | nil =>
        obtain ⟨rfl, -⟩ := hcons hrest hmem
        obtain ⟨key, space, d, space', hnil, -⟩ := hkeep
        have hlength := congrArg List.length hnil
        simp at hlength
      | cons d s =>
        obtain ⟨rfl, hb⟩ := List.cons.inj hrest
        refine .inr ⟨s, keep, v, rest, hb, ?_, hv⟩
        rwa [lastOr_append, lastOr_cons] at hkeep
    · obtain ⟨s', rfl, hhead⟩ | ⟨s', rfl, hhead⟩ := List.append_eq_append_iff.mp hrest
      · -- its value begins before the bracket, or with it
        cases s' with
        | nil =>
          obtain ⟨rfl, -⟩ := List.cons.inj hhead
          exact .inl ⟨u, keep, v, [], by simp, hkeep, hv⟩
        | cons d s' =>
          obtain ⟨rfl, -⟩ := List.cons.inj hhead
          exact .inl ⟨u, keep, v, s' ++ [c], by simp, hkeep, hv⟩
      · -- its value begins with the bracket
        have hnot : c ∉ s' := fun h => hmem (List.mem_append_right _ h)
        obtain ⟨rfl, rfl⟩ := hcons hhead hnot
        exact .inl ⟨u, s ++ [], v, [], by simp, hkeep, hv⟩
  · rintro (⟨u, keep, v, rest, htext, hkeep, hv⟩ | ⟨u, keep, v, rest, rfl, hkeep, hv⟩)
    · refine ⟨u, keep, v, rest ++ b, ?_, hkeep, hv⟩
      rw [← List.singleton_append, ← List.append_assoc, htext]
      simp only [List.append_assoc, List.cons_append]
    · refine ⟨a ++ c :: u, keep, v, rest, by simp, ?_, hv⟩
      rwa [lastOr_append, lastOr_cons]

omit [Alphanumeric] in
/-- What protects a value is set in brackets. -/
theorem protectedValue_eq :
    protectedValue = .ofChar '[' :: (str "SEGREDO PROTEGIDO" ++ [.ofChar ']']) := by decide

/-- A placeholder parts a text: an assignment stands before it, with its first bracket for the
value at most, or after it. -/
theorem assigned_append_protectedValue (hL : KeyLanguage words L) (t : Str) :
    Assigned L before (q ++ protectedValue ++ t) ↔
      Assigned L before (q ++ [.ofChar '[']) ∨ Assigned L none t := by
  have hmiddle (before : Option Point) :
      ¬Assigned L before (str "SEGREDO PROTEGIDO" ++ [.ofChar ']']) := by
    refine not_assigned_of_isAssign ?_
    have hall : (str "SEGREDO PROTEGIDO" ++ [Point.ofChar ']']).all (!isAssign ·) = true := by
      decide
    simpa using List.all_eq_true.mp hall
  have hword : (some (Point.ofChar ']')).any isWordPoint = (none : Option Point).any isWordPoint := by
    rw [Option.any_some, Option.any_none, isWordPoint, Alphanumeric.ascii _ (by decide)]
    decide
  rw [protectedValue_eq, List.append_assoc, List.cons_append,
    assigned_append_cons hL (by decide) (by decide) (by decide), List.append_assoc,
    List.singleton_append,
    assigned_append_cons (a := str "SEGREDO PROTEGIDO") hL (by decide) (by decide) (by decide)]
  constructor
  · rintro (h | h | h)
    · exact .inl h
    · exact absurd h (hmiddle _)
    · exact .inr (h.of_before hword)
  · rintro (h | h)
    · exact .inl h
    · exact .inr (.inr (h.of_before hword.symm))

/-- What a text of pieces with placeholders between them has to be redacted is in the pieces. -/
theorem search_intercalate_eq_false (ps : List Str) (hps : ps ≠ []) :
    sensitiveAssignmentPattern.search (protectedValue.intercalate ps) = false ↔ Unassigned ps := by
  obtain ⟨L, hL⟩ := keyLanguage_auditWords
  have hiff (t : Str) : sensitiveAssignmentPattern.search t = false ↔ ¬Assigned L none t :=
    (search_eq_false_iff_quiet t).trans (quiet_iff_not_assigned hL)
  induction ps with
  | nil => exact absurd rfl hps
  | cons q ps ih =>
    cases ps with
    | nil =>
      rw [List.intercalate_singleton]
      rfl
    | cons q' ps =>
      have hnil : ¬Assigned L none ([] : Str) :=
        not_assigned_of_isAssign fun c hc => absurd hc List.not_mem_nil
      have hfirst : Assigned L none (q ++ protectedValue) ↔ Assigned L none (q ++ [.ofChar '[']) := by
        have happend : Assigned L none (q ++ protectedValue ++ []) ↔
            Assigned L none (q ++ [.ofChar '[']) ∨ Assigned L none [] :=
          assigned_append_protectedValue hL []
        rwa [List.append_nil, or_iff_left hnil] at happend
      rw [List.intercalate_cons_cons, hiff, assigned_append_protectedValue hL, not_or, ← hfirst,
        ← hiff, ← hiff]
      exact and_congr_right fun _ => ih (List.cons_ne_nil _ _)

end Assigned

section Values

variable {sensitive values ps : List Str} {s t v w q : Str}

/-- The sensitive values are not empty. -/
theorem Arranged.ne_nil_of_others {arranged : Arranged sensitive} (hv : v ∈ arranged.others) :
    v ≠ [] := ((arranged.mem_iff v).mp (List.mem_filter.mp hv).1).2

/-- The values are replaced one after the other. -/
@[simp]
theorem replaceValues_cons (v : Str) (values : List Str) (t : Str) :
    replaceValues (v :: values) t = replaceValues values (replace v protectedValue t) := rfl

/-- The pieces are cut at one value after the other. -/
@[simp]
theorem cut_cons (v : Str) (values ps : List Str) :
    cut (v :: values) ps = cut values (ps.flatMap (split v)) := rfl

/-- The placeholder for a value is replaced by itself. -/
theorem replaceValues_filter (values : List Str) (t : Str) :
    replaceValues (values.filter (· ≠ protectedValue)) t = replaceValues values t := by
  induction values generalizing t with
  | nil => rfl
  | cons v values ih =>
    by_cases hv : v = protectedValue
    · rw [List.filter_cons_of_neg (by simpa using hv), replaceValues_cons, hv,
        replace_self (show protectedValue ≠ [] by decide), ih]
    · rw [List.filter_cons_of_pos (by simpa using hv), replaceValues_cons, replaceValues_cons, ih]

/-- What has none of the values stays. -/
theorem replaceValues_of_not_isInfix (h : ∀ v ∈ values, ¬v <:+: t) : replaceValues values t = t := by
  induction values with
  | nil => rfl
  | cons v values ih =>
    obtain ⟨hv, hvalues⟩ := List.forall_mem_cons.mp h
    rw [replaceValues_cons, replace_of_not_isInfix hv, ih hvalues]

/-- **The values cut the pieces further** as long as they overlap no placeholder. -/
theorem replaceValues_intercalate (hvalues : ∀ v ∈ values, v ≠ []) (hps : ps ≠ [])
    (h : Clear values ps) : replaceValues values (protectedValue.intercalate ps) =
      protectedValue.intercalate (cut values ps) := by
  induction values generalizing ps with
  | nil => rfl
  | cons v values ih =>
    obtain ⟨hv, hvalues⟩ := List.forall_mem_cons.mp hvalues
    rw [replaceValues_cons, replace_intercalate hv hps h.1,
      ih hvalues (flatMap_split_ne_nil hps) h.2, cut_cons]

/-- What is cut has a piece. -/
theorem cut_ne_nil (hps : ps ≠ []) : cut values ps ≠ [] := by
  induction values generalizing ps with
  | nil => exact hps
  | cons v values ih => exact ih (flatMap_split_ne_nil hps)

/-- The pieces stand in what was cut. -/
theorem infix_of_mem_cut (h : q ∈ cut values ps) : ∃ p ∈ ps, q <:+: p := by
  induction values generalizing ps with
  | nil => exact ⟨q, h, List.infix_refl _⟩
  | cons v values ih =>
    obtain ⟨p', hp', hq⟩ := ih h
    obtain ⟨p, hp, hsplit⟩ := List.mem_flatMap.mp hp'
    exact ⟨p, hp, hq.trans (infix_of_mem_split hsplit)⟩

/-- No value is left in the pieces. -/
theorem not_infix_of_mem_cut (hvalues : ∀ v ∈ values, v ≠ []) (hv : v ∈ values)
    (h : q ∈ cut values ps) : ¬v <:+: q := by
  induction values generalizing ps with
  | nil => exact absurd hv List.not_mem_nil
  | cons w values ih =>
    obtain ⟨hw, hvalues⟩ := List.forall_mem_cons.mp hvalues
    obtain rfl | hv := List.mem_cons.mp hv
    · intro hin
      rw [cut_cons] at h
      obtain ⟨p', hp', hq⟩ := infix_of_mem_cut h
      obtain ⟨p, -, hsplit⟩ := List.mem_flatMap.mp hp'
      exact not_infix_of_mem_split hw hsplit (hin.trans hq)
    · exact ih hvalues hv h

/-- What stands in no piece and overlaps no placeholder does not stand in the text. -/
theorem not_infix_intercalate (hps : ps ≠ []) (h : ∀ q ∈ ps, ¬w <:+: q)
    (huntouched : Untouched w protectedValue ps) : ¬w <:+: protectedValue.intercalate ps := by
  intro hin
  obtain ⟨q, hq, hin⟩ | ⟨qs, rs, rfl, hqs, hrs, htouches⟩ := infix_intercalate hin hps
  · exact h q hq hin
  · exact huntouched qs rs rfl hqs hrs htouches

/-- A value apart from what protects touches none of it. -/
theorem IsApart.untouched (h : IsApart w) (ps : List Str) : Untouched w protectedValue ps :=
  fun _ _ _ _ _ => h _ _

end Values

section Idempotence

variable [Alphanumeric] {sensitive : List Str} {arranged : Arranged sensitive} {s t : Str}

/-- The value that protects is among no values that change a text. -/
theorem redactAuditText_eq (arranged : Arranged sensitive) (s : Str) :
    redactAuditText arranged s = replaceValues arranged.others
      (sub (assignment auditWords) (plus isValue) protectedValue s) := by
  rw [redactAuditText, Arranged.others, replaceValues_filter]

/-- Nothing to redact: the text stays. -/
theorem Spared.redactAuditText_eq (h : Spared arranged t) : redactAuditText arranged t = t := by
  have hquiet := (search_eq_false_iff_quiet t).mp h.unassigned
  rw [PalworldManager.redactAuditText_eq, sub, substitute_of_quiet hquiet,
    replaceValues_of_not_isInfix h.values]

/-- A text that does not lose a part of a placeholder is its pieces with placeholders. -/
theorem redactAuditText_eq_intercalate (h : Clear arranged.others (assignmentPieces s)) :
    redactAuditText arranged s =
      protectedValue.intercalate (cut arranged.others (assignmentPieces s)) := by
  rw [redactAuditText_eq, sub, substitute_eq_intercalate]
  exact replaceValues_intercalate (fun v => Arranged.ne_nil_of_others) pieces_ne_nil h

/-- **What the pieces say of a text is that nothing of its redaction is redacted.** -/
theorem stable_iff_spared (h : Clear arranged.others (assignmentPieces s)) :
    Stable arranged s ↔ Spared arranged (redactAuditText arranged s) := by
  have hne : cut arranged.others (assignmentPieces s) ≠ [] := cut_ne_nil pieces_ne_nil
  rw [redactAuditText_eq_intercalate h]
  constructor
  · intro hstable
    exact ⟨(search_intercalate_eq_false _ hne).mpr hstable.unassigned, fun v hv =>
      not_infix_intercalate hne
        (fun q hq => not_infix_of_mem_cut (fun v => Arranged.ne_nil_of_others) hv hq)
        (hstable.untouched v hv)⟩
  · intro hspared
    refine ⟨h, fun v hv qs rs hsplit hqs hrs htouches => hspared.values v hv ?_,
      (search_intercalate_eq_false _ hne).mp hspared.unassigned⟩
    rw [hsplit, intercalate_append hqs hrs]
    exact htouches.isInfix

omit [Alphanumeric] in
/-- A text without values is not cut by them. -/
theorem clear_of_not_isInfix {values : List Str} (hvalues : ∀ v ∈ values, v ≠ [])
    (h : ∀ v ∈ values, ¬v <:+: s) : Clear values [s] ∧ cut values [s] = [s] := by
  induction values with
  | nil => exact ⟨trivial, rfl⟩
  | cons v values ih =>
    obtain ⟨hne, hvalues⟩ := List.forall_mem_cons.mp hvalues
    obtain ⟨hv, h⟩ := List.forall_mem_cons.mp h
    have hsplit : [s].flatMap (split v) = [s] := by
      rw [List.flatMap_singleton, split_of_not_isInfix hne hv]
    obtain ⟨hclear, hcut⟩ := ih hvalues h
    exact ⟨⟨untouched_singleton v _ s, by rwa [hsplit]⟩, by rwa [cut_cons, hsplit]⟩

/-- A text that is spared is stable. -/
theorem Spared.stable (h : Spared arranged s) : Stable arranged s := by
  have hquiet := (search_eq_false_iff_quiet s).mp h.unassigned
  have hpieces : assignmentPieces s = [s] := pieces_of_quiet hquiet
  have hclear := (clear_of_not_isInfix (fun v => Arranged.ne_nil_of_others) h.values).1
  refine (stable_iff_spared (hpieces ▸ hclear)).mpr ?_
  rwa [h.redactAuditText_eq]

end Idempotence

section Twice

end Twice

end PalworldManager
