/-
# Restoring the settings over the file they were taken from

To redact PalWorldSettings.ini and to merge the result over the same file gives the file
back, with two exceptions (`merge_redact_iff`).  The white space around a blank value is
found twice, in front of the value and behind it, so that putting the value back doubles
it.  And a secret over several lines, or with a bracket in it, can be all that keeps a line
from being a section header: once it is left out, the tuple does not end in its section.
-/

import PalworldManager.PalworldSettings.Headers
import PalworldManager.Restores.Merge

namespace PalworldManager

open Text

/-- Two states that a comma, or a closing parenthesis, makes one. -/
def LineScan.Alike (s s' : LineScan) : Prop :=
  s = s' ∨ (s = .start ∨ s = .other) ∧ (s' = .start ∨ s' = .other)

/-- A state in which a pair of quotation marks is no news. -/
def LineScan.Settled (s : LineScan) : Prop :=
  s = .start ∨ s = .other ∨ s = .header true ∨ s = .found

section Scan

variable {s s' : LineScan} {u v w w₁ w₂ S : Str} {c : Point} {es es' : List Str}

/-- The scan of two texts is that of the second from where that of the first ends. -/
theorem LineScan.run_append (s : LineScan) (u v : Str) : s.run (u ++ v) = (s.run u).run v :=
  List.foldl_append

/-- A comma makes states that are alike one. -/
theorem LineScan.Alike.next_comma (h : s.Alike s') :
    s.next (.ofChar ',') = s'.next (.ofChar ',') := by
  rcases h with rfl | ⟨rfl | rfl, rfl | rfl⟩
  · rfl
  all_goals decide

/-- From states that are alike the same parenthesis completes the line. -/
theorem LineScan.Alike.completes (h : s.Alike s') :
    s.Completes (.ofChar ')' :: S) ↔ s'.Completes (.ofChar ')' :: S) := by
  have hstart : (LineScan.start).Completes (.ofChar ')' :: S) ↔ False :=
    ⟨not_header_closing S, False.elim⟩
  have hother : (LineScan.other).Completes (.ofChar ')' :: S) ↔ False := Iff.rfl
  rcases h with rfl | ⟨rfl | rfl, rfl | rfl⟩
  · rfl
  · rfl
  · rw [hstart, hother]
  · rw [hstart, hother]
  · rfl

/-- White space leaves states alike. -/
theorem LineScan.Alike.next_isSpace (h : s.Alike s') (hc : c.isSpace = true) :
    (s.next c).Alike (s'.next c) := by
  rcases h with rfl | ⟨hs, hs'⟩
  · exact .inl rfl
  · have hnext {s : LineScan} (hs : s = .start ∨ s = .other) :
        s.next c = .start ∨ s.next c = .other := by
      rcases hs with rfl | rfl
      · exact .inl (if_pos hc)
      · rw [LineScan.next]
        split_ifs
        · exact .inl rfl
        · exact .inr rfl
    exact .inr ⟨hnext hs, hnext hs'⟩

/-- A blank text leaves states alike. -/
theorem LineScan.Alike.run_isBlank (h : s.Alike s') (hw : Str.IsBlank w) :
    (s.run w).Alike (s'.run w) := by
  induction w generalizing s s' with
  | nil => exact h
  | cons c w ih =>
    exact ih (h.next_isSpace (hw c List.mem_cons_self)) fun d hd => hw d (List.mem_cons_of_mem _ hd)

/-- After an equal sign a pair of quotation marks is no news. -/
theorem LineScan.settled_equal (s : LineScan) : (s.next (.ofChar '=')).Settled := by
  have hline : Point.ofChar '=' ≠ newline := by decide
  have hreturn : Point.ofChar '=' ≠ .ofChar '\r' := by decide
  have hclose : Point.ofChar '=' ≠ .ofChar ']' := by decide
  cases s with
  | header named => exact .inr (.inr (.inl (by simp [LineScan.next, hline, hreturn, hclose])))
  | _ => unfold LineScan.Settled; decide

/-- Nor is it after white space that follows. -/
theorem LineScan.Settled.next_isSpace (h : s.Settled) (hc : c.isSpace = true) :
    (s.next c).Settled := by
  have hclose : c ≠ .ofChar ']' := by
    rintro rfl
    exact absurd hc (by decide)
  rcases h with rfl | rfl | rfl | rfl
  · exact .inl (if_pos hc)
  · rw [LineScan.next]
    split_ifs
    · exact .inl rfl
    · exact .inr (.inl rfl)
  · rw [LineScan.next, if_neg hclose]
    split_ifs
    · exact .inl rfl
    · exact .inr (.inl rfl)
    · exact .inr (.inr (.inl rfl))
  · exact .inr (.inr (.inr rfl))

/-- Nor after a blank text that follows. -/
theorem LineScan.Settled.run_isBlank (h : s.Settled) (hw : Str.IsBlank w) : (s.run w).Settled := by
  induction w generalizing s with
  | nil => exact h
  | cons c w ih =>
    exact ih (h.next_isSpace (hw c List.mem_cons_self)) fun d hd => hw d (List.mem_cons_of_mem _ hd)

/-- A redacted value leaves such a state like itself. -/
theorem LineScan.Settled.alike_redacted (h : s.Settled) : s.Alike (s.run redacted) := by
  rcases h with rfl | rfl | rfl | rfl
  · exact .inr ⟨.inl rfl, .inr (by decide)⟩
  · exact .inl (by decide)
  · exact .inl (by decide)
  · exact .inl (by decide)

/-- **A value that is left out, or replaced by quotation marks**, leaves the scan alike. -/
theorem alike_value (hw₁ : Str.IsBlank w₁) (hw₂ : Str.IsBlank w₂) (s : LineScan) (u : Str) :
    (s.run (u ++ .ofChar '=' :: (w₁ ++ [] ++ w₂))).Alike
      (s.run (u ++ .ofChar '=' :: (w₁ ++ redacted ++ w₂))) := by
  have hsettled : ((((s.run u).next (.ofChar '=')).run w₁)).Settled :=
    (LineScan.settled_equal _).run_isBlank hw₁
  have hcons (s : LineScan) (c : Point) (t : Str) : s.run (c :: t) = (s.next c).run t := rfl
  rw [List.append_nil, LineScan.run_append, LineScan.run_append, hcons, hcons, LineScan.run_append,
    LineScan.run_append, LineScan.run_append]
  exact hsettled.alike_redacted.run_isBlank hw₂

/-- Entries that leave the scan alike join to texts that do. -/
theorem alike_joinEntries
    (h : List.Forall₂ (fun e e' => ∀ s : LineScan, (s.run e).Alike (s.run e')) es es')
    (s : LineScan) : (s.run (joinEntries es)).Alike (s.run (joinEntries es')) := by
  induction h generalizing s with
  | nil => exact .inl rfl
  | @cons e e' es es' he hes ih =>
    have hlen := hes.length_eq
    by_cases hnil : es = []
    · subst hnil
      obtain rfl := List.length_eq_zero_iff.mp hlen.symm
      rw [joinEntries_singleton, joinEntries_singleton]
      exact he s
    · have hnil' : es' ≠ [] := by
        rintro rfl
        exact hnil (List.length_eq_zero_iff.mp hlen)
      have hcons (s : LineScan) (t : Str) :
          s.run (.ofChar ',' :: t) = (s.next (.ofChar ',')).run t := rfl
      rw [joinEntries_cons e hnil, joinEntries_cons e' hnil', LineScan.run_append,
        LineScan.run_append, hcons, hcons, (he s).next_comma]
      exact ih _

end Scan

section Redact

variable {content text : Str} {parsed red : ParsedIni} {entry : IniEntry} {entries : List IniEntry}
  {f : IniValue} {fields fields' : List IniValue} {key : Str}

/-- What is left out of a backup is not restored from it. -/
theorem not_isRestoredKey_of_isSensitiveKey (h : isSensitiveKey key = true) :
    ¬IsRestoredKey key := by
  rintro ⟨d, hd, hkind⟩
  have hmem := settingDefinition_mem hd
  have hkey : d.key = key := by
    have hfound := List.find?_some hd
    simpa using hfound
  rw [isSensitiveKey, Bool.or_eq_true, decide_eq_true_eq] at h
  rcases h with h | h
  · have hcodes : sensitiveKeys = [str "AdminPassword", str "ServerPassword"] := by decide +kernel
    rw [hcodes, ← hkey] at h
    have hall : (settingDefinitions.all fun d => d.kind = .sensitive ||
      !decide (d.key ∈ [str "AdminPassword", str "ServerPassword"])) = true := by
      simp (disch := rfl) only [settingDefinitions, definition, str_eq]
      decide +kernel
    have hd := List.all_eq_true.mp hall d hmem
    simp [hkind] at hd
    simp_all
  · exact hkind (kind_of_isSensitiveName d hmem (hkey ▸ h))

/-- A value that is read again after the redaction. -/
def FieldRedacted (f f' : IniValue) : Prop :=
  f'.key = f.key ∧ (isSensitiveKey f.key = false → f' = f)

/-- **What is read of the redacted file**: the same keys, and the same values but for the
secrets. -/
theorem fields_redacted (h : parseIni content = .ok parsed)
    (hred : parseIni (parsed.render (redactions parsed.entries)) = .ok red) :
    List.Forall₂ FieldRedacted parsed.fields red.fields := by
  have hvalues : ∀ r ∈ redactions parsed.entries, IsValue r.2 := by
    intro r hr
    obtain ⟨key, -, rfl⟩ := List.mem_map.mp hr
    exact isValueText_redacted.isValue
  rw [parseIni_render_eq_ok h hvalues hred, ParsedIni.fields, ParsedIni.fields]
  have hfield : ∀ entry ∈ parsed.entries, Option.Rel FieldRedacted entry.field
      (parseEntry (entry.render (redactions parsed.entries))).field := by
    intro entry he
    obtain ⟨hentry, hparse⟩ := parseEntry_of_mem h he
    rw [render_secretsAs _ he]
    cases hf : entry.field with
    | none =>
      simp only
      rw [hparse, hf]
      exact .none
    | some f =>
      by_cases hkey : isSensitiveKey f.key = true
      · have hf' := hf
        rw [← hparse] at hf'
        obtain ⟨-, g, hg, hgkey, -⟩ := parseEntry_replaceValue hentry hf' isValueText_redacted.isValue
        rw [hparse] at hg
        simp only [if_pos hkey, hg]
        exact .some ⟨hgkey, fun hfalse => absurd hkey (by simp [hfalse])⟩
      · simp only [if_neg hkey]
        rw [hparse, hf]
        exact .some ⟨rfl, fun _ => rfl⟩
  generalize parsed.entries = all at hfield ⊢
  generalize redactions all = replacements at hfield ⊢
  induction all with
  | nil => exact .nil
  | cons entry rest ih =>
    rw [List.map_cons, List.filterMap_cons, List.filterMap_cons]
    have hrest := ih fun e he => hfield e (List.mem_cons_of_mem _ he)
    have hhead := hfield entry List.mem_cons_self
    generalize entry.field = before at hhead ⊢
    generalize (parseEntry (entry.render replacements)).field = after at hhead ⊢
    cases hhead with
    | none => exact hrest
    | some hf => exact .cons hf hrest

/-- The redaction keeps the keys. -/
theorem keys_redacted (h : List.Forall₂ FieldRedacted fields fields') :
    fields'.map IniValue.key = fields.map IniValue.key := by
  induction h with
  | nil => rfl
  | cons hf _ ih => rw [List.map_cons, List.map_cons, hf.1, ih]

/-- The values that a restore takes are those that were there. -/
theorem restored_redacted (h : List.Forall₂ FieldRedacted fields fields') :
    fields'.filter (fun f => isRestored f.key) = fields.filter fun f => isRestored f.key := by
  induction h with
  | nil => rfl
  | @cons f f' fields fields' hf _ ih =>
    by_cases hkey : isSensitiveKey f.key = true
    · have hnot : ¬isRestored f.key = true := fun hr =>
        not_isRestoredKey_of_isSensitiveKey hkey (isRestored_iff.mp hr)
      rw [List.filter_cons, List.filter_cons, hf.1, if_neg hnot, if_neg hnot, ih]
    · rw [hf.2 (by simpa using hkey), List.filter_cons, List.filter_cons, ih]

/-- The redacted values are checked as those that were there. -/
theorem validate_redacted (h : List.Forall₂ FieldRedacted fields fields')
    (hv : validateKnownValues fields = .ok ()) : validateKnownValues fields' = .ok () := by
  induction h with
  | nil => rfl
  | @cons f f' fields fields' hf _ ih =>
    rw [validateKnownValues] at hv ⊢
    rw [hf.1]
    cases hd : settingDefinition f.key with
    | none =>
      rw [hd] at hv
      exact ih hv
    | some d =>
      rw [hd] at hv
      simp only at hv ⊢
      by_cases hkind : d.kind = .readOnly ∨ d.kind = .sensitive
      · rw [if_pos hkind] at hv ⊢
        exact ih hv
      · have hkey : isSensitiveKey f.key = false := by
          rw [← Bool.not_eq_true]
          exact fun hkey => not_isRestoredKey_of_isSensitiveKey hkey
            ⟨d, hd, fun hs => hkind (.inr hs)⟩
        rw [if_neg hkind] at hv ⊢
        obtain ⟨value, hvalue, hrest⟩ := except_bind_eq_ok.mp hv
        rw [hf.2 hkey, hvalue]
        exact ih hrest

end Redact

section SameFile

variable {content : Str} {parsed : ParsedIni} {entry : IniEntry} {entries : List IniEntry}
  {raw : Str} {f : IniValue} {fields : List IniValue}

/-- A value that is put back: the white space around a blank one is doubled. -/
theorem length_replaceValue_value (h : IsEntry raw) (hf : (parseEntry raw).field = some f) :
    ((parseEntry raw).replaceValue f f.value).length = raw.length + (f.valueStart - f.valueEnd) := by
  obtain ⟨u, w₁, w₂, hp⟩ := parseEntry_parts h hf
  have hstart := hp.start
  have hstop := hp.stop
  rw [hp.replaceValue]
  rcases hp.value with ⟨hnil, rfl, hraw⟩ | ⟨-, hraw⟩
  · rw [hnil]
    have hlen := congrArg List.length hraw
    simp only [List.length_append, List.length_cons, List.length_nil] at hlen ⊢
    omega
  · have hlen := congrArg List.length hraw
    simp only [List.length_append, List.length_cons] at hlen ⊢
    omega

/-- A value put in its own place changes nothing. -/
theorem replaceValue_value (h : IsEntry raw) (hf : (parseEntry raw).field = some f)
    (hle : f.valueStart ≤ f.valueEnd) : (parseEntry raw).replaceValue f f.value = raw := by
  obtain ⟨u, w₁, w₂, hp⟩ := parseEntry_parts h hf
  have hstart := hp.start
  have hstop := hp.stop
  rw [hp.replaceValue]
  rcases hp.value with ⟨hnil, rfl, hraw⟩ | ⟨-, hraw⟩
  · have hlen := congrArg List.length hraw
    simp only [List.length_append, List.length_cons] at hlen
    obtain rfl : w₁ = [] := List.length_eq_zero_iff.mp (by omega)
    rw [hnil, hraw]
    rfl
  · exact hraw.symm

/-- How an entry is rendered with the values of its own file. -/
theorem render_restoredValues (hnodup : (parsed.fields.map IniValue.key).Nodup)
    (he : entry ∈ parsed.entries) :
    entry.render parsed.restoredValues =
      match entry.field with
      | none => entry.raw
      | some f => if isRestored f.key = true then entry.replaceValue f f.value else entry.raw := by
  rw [IniEntry.render]
  cases hf : entry.field with
  | none => rfl
  | some f =>
    have hmem : f ∈ parsed.fields := List.mem_filterMap.mpr ⟨entry, he, hf⟩
    simp only
    by_cases hkey : isRestored f.key = true
    · have hlookup : parsed.restoredValues.lookup f.key = some f.value :=
        (lookup_restoredValues hnodup).mpr ⟨isRestored_iff.mp hkey, f, hmem, rfl, rfl⟩
      rw [hlookup, if_pos hkey]
    · have hlookup : parsed.restoredValues.lookup f.key = none := by
        rw [Option.eq_none_iff_forall_ne_some]
        intro v hv
        exact hkey (isRestored_iff.mpr ((lookup_restoredValues hnodup).mp hv).1)
      rw [hlookup, if_neg hkey]

/-- An entry gets no shorter when its own value is restored: the white space stays around it. -/
theorem length_render_restoredValues (h : parseIni content = .ok parsed)
    (hnodup : (parsed.fields.map IniValue.key).Nodup) (he : entry ∈ parsed.entries) :
    entry.raw.length ≤ (entry.render parsed.restoredValues).length := by
  obtain ⟨hentry, hparse⟩ := parseEntry_of_mem h he
  rw [render_restoredValues hnodup he]
  cases hf : entry.field with
  | none => exact le_rfl
  | some f =>
    simp only
    split_ifs
    · have hlen := length_replaceValue_value hentry (by rwa [hparse])
      rw [hparse] at hlen
      omega
    · exact le_rfl

/-- Entries that are none shorter, and join to a text of the same length, are of the same
lengths. -/
theorem length_eq_of_joinEntries {g k : IniEntry → Str}
    (hle : ∀ e ∈ entries, (g e).length ≤ (k e).length)
    (hjoin : (joinEntries (entries.map g)).length = (joinEntries (entries.map k)).length) :
    ∀ e ∈ entries, (g e).length = (k e).length := by
  have hall (entries : List IniEntry) (hle : ∀ e ∈ entries, (g e).length ≤ (k e).length) :
      (joinEntries (entries.map g)).length ≤ (joinEntries (entries.map k)).length ∧
        ((joinEntries (entries.map g)).length = (joinEntries (entries.map k)).length →
          ∀ e ∈ entries, (g e).length = (k e).length) := by
    induction entries with
    | nil => exact ⟨le_rfl, fun _ => nofun⟩
    | cons e entries ih =>
      obtain ⟨hrest, heq⟩ := ih fun e' he' => hle e' (List.mem_cons_of_mem _ he')
      have hhead := hle e List.mem_cons_self
      rw [List.forall_mem_cons, List.map_cons, List.map_cons]
      by_cases hnil : entries = []
      · subst hnil
        simp only [List.map_nil, joinEntries_singleton]
        exact ⟨hhead, fun h => ⟨h, nofun⟩⟩
      · have hg : entries.map g ≠ [] := by simpa using hnil
        have hk : entries.map k ≠ [] := by simpa using hnil
        simp only [joinEntries_cons _ hg, joinEntries_cons _ hk, List.length_append,
          List.length_cons]
        exact ⟨by omega, fun h => ⟨by omega, heq (by omega)⟩⟩
  exact (hall entries hle).2 hjoin

/-- **To put back the values of a file** gives the file, unless a value ends before it
starts. -/
theorem render_restoredValues_eq_iff (h : parseIni content = .ok parsed)
    (hnodup : (parsed.fields.map IniValue.key).Nodup) :
    parsed.render parsed.restoredValues = content ↔
      ∀ f ∈ parsed.fields, IsRestoredKey f.key → f.valueStart ≤ f.valueEnd := by
  rw [← render_nil_eq h, ParsedIni.render, ParsedIni.render, List.append_cancel_right_eq,
    List.append_cancel_left_eq]
  have hraw : parsed.entries.map (IniEntry.render []) = parsed.entries.map IniEntry.raw :=
    List.map_congr_left fun e _ => render_nil e
  rw [hraw]
  constructor
  · intro hjoin f hf hkey
    obtain ⟨entry, he, hfield⟩ := List.mem_filterMap.mp hf
    obtain ⟨hentry, hparse⟩ := parseEntry_of_mem h he
    have hlen := length_eq_of_joinEntries (fun e he => length_render_restoredValues h hnodup he)
      (congrArg List.length hjoin.symm) entry he
    rw [render_restoredValues hnodup he, hfield] at hlen
    simp only [if_pos (isRestored_iff.mpr hkey)] at hlen
    have hvalue := length_replaceValue_value hentry (by rwa [hparse])
    rw [hparse, ← hlen] at hvalue
    omega
  · intro hle
    congr 1
    refine List.map_congr_left fun entry he => ?_
    obtain ⟨hentry, hparse⟩ := parseEntry_of_mem h he
    rw [render_restoredValues hnodup he]
    cases hfield : entry.field with
    | none => rfl
    | some f =>
      simp only
      split_ifs with hkey
      · have hmem : f ∈ parsed.fields := List.mem_filterMap.mpr ⟨entry, he, hfield⟩
        have hvalue := replaceValue_value hentry (by rwa [hparse])
          (hle f hmem (isRestored_iff.mp hkey))
        rwa [hparse] at hvalue
      · rfl

/-- Every secret is what it was. -/
theorem checkSecrets_self (hnodup : (fields.map IniValue.key).Nodup) :
    checkSecrets fields fields = .ok () := by
  have hfind : ∀ f ∈ fields, fields.find? (fun g => g.key = f.key) = some f := by
    intro f hf
    cases hg : fields.find? (fun g => g.key = f.key) with
    | none => simpa using List.find?_eq_none.mp hg f hf
    | some g =>
      have hkey : g.key = f.key := by simpa using List.find?_some hg
      rw [List.inj_on_of_nodup_map hnodup (List.mem_of_find?_eq_some hg) hf hkey]
  have hall (rest : List IniValue) (hrest : ∀ f ∈ rest, f ∈ fields) :
      checkSecrets fields rest = .ok () := by
    induction rest with
    | nil => rfl
    | cons f rest ih =>
      rw [checkSecrets, if_neg, ih fun g hg => hrest g (List.mem_cons_of_mem _ hg)]
      rw [hfind f (hrest f List.mem_cons_self), Option.map_some]
      exact fun hne => hne.2 rfl
  exact hall fields fun f hf => hf

/-- Left out or replaced by quotation marks, the secrets make no difference to where the
section ends. -/
theorem headerIn_secretsAs (h : parseIni content = .ok parsed) :
    HeaderIn false (joinEntries (parsed.entries.map
        (IniEntry.render (secretsAs [] parsed.entries)))) parsed.suffix ↔
      HeaderIn false (joinEntries (parsed.entries.map
        (IniEntry.render (redactions parsed.entries)))) parsed.suffix := by
  obtain ⟨_, _, S, -, -, -, -, -, hsuffix, -⟩ := exists_entries h
  have halike : List.Forall₂ (fun e e' => ∀ s : LineScan, (s.run e).Alike (s.run e'))
      (parsed.entries.map (IniEntry.render (secretsAs [] parsed.entries)))
      (parsed.entries.map (IniEntry.render (redactions parsed.entries))) := by
    rw [List.forall₂_map_left_iff, List.forall₂_map_right_iff, List.forall₂_same]
    intro entry he s
    obtain ⟨hentry, hparse⟩ := parseEntry_of_mem h he
    rw [render_secretsAs _ he, render_secretsAs _ he]
    cases hf : entry.field with
    | none => exact .inl rfl
    | some f =>
      simp only
      split_ifs
      · rw [← hparse] at hf
        obtain ⟨u, w₁, w₂, hp⟩ := parseEntry_parts hentry hf
        rw [← hparse, hp.replaceValue, hp.replaceValue]
        exact alike_value hp.blank_left hp.blank_right s u
      · exact .inl rfl
  rw [hsuffix]
  have hscan (u : Str) : (LineScan.other.run u).Completes (.ofChar ')' :: S) ↔
      HeaderIn false u (.ofChar ')' :: S) := run_iff u _ .other
  rw [← hscan, ← hscan]
  exact (alike_joinEntries halike .other).completes

/-- The redacted file is accepted exactly if the file is without its secrets. -/
theorem exists_parseIni_redacted_iff (h : parseIni content = .ok parsed) :
    (∃ red, parseIni (parsed.render (redactions parsed.entries)) = .ok red) ↔
      ∃ bare, parseIni (parsed.render (secretsAs [] parsed.entries)) = .ok bare := by
  have hvalues {v : Str} (hv : IsValue v ∧ .ofChar '(' ∉ v) :
      ∀ r ∈ secretsAs v parsed.entries, IsValue r.2 ∧ .ofChar '(' ∉ r.2 := by
    intro r hr
    obtain ⟨key, -, rfl⟩ := List.mem_map.mp hr
    exact hv
  have hempty : IsValue [] := ⟨rfl, .inl rfl⟩
  rw [exists_parseIni_render_iff h (hvalues ⟨isValueText_redacted.isValue, by decide⟩),
    exists_parseIni_render_iff h (hvalues ⟨hempty, by simp⟩), headerIn_secretsAs h]

/-- **To redact and to merge over the same file** gives the file back exactly if no value
that is restored is blank with white space in its place, and the file is accepted without
its secrets. -/
theorem merge_redact_iff (h : parseIni content = .ok parsed)
    (hkeys : (parsed.fields.map IniValue.key).Nodup)
    (hvalues : validateKnownValues parsed.fields = .ok ()) :
    (∃ text, redactPalworldSettings content = .ok text ∧
        mergePalworldSettings text content = .ok content) ↔
      (∀ f ∈ parsed.fields, IsRestoredKey f.key → f.valueStart ≤ f.valueEnd) ∧
        ∃ bare, parseIni (parsed.render (secretsAs [] parsed.entries)) = .ok bare := by
  have hredact : redactPalworldSettings content = .ok (parsed.render (redactions parsed.entries)) := by
    rw [redactPalworldSettings, h]
    rfl
  rw [← exists_parseIni_redacted_iff h, ← render_restoredValues_eq_iff h hkeys]
  have hrestored {red : ParsedIni}
      (hred : parseIni (parsed.render (redactions parsed.entries)) = .ok red) :
      red.restoredValues = parsed.restoredValues := by
    rw [ParsedIni.restoredValues, ParsedIni.restoredValues, restored_redacted (fields_redacted h hred)]
  constructor
  · rintro ⟨text, htext, hmerge⟩
    obtain rfl : parsed.render (redactions parsed.entries) = text :=
      Except.ok.inj (hredact.symm.trans htext)
    obtain ⟨red, current, -, hred, hcurrent, -, hcontent, -⟩ := mergePalworldSettings_eq_ok.mp hmerge
    obtain rfl : parsed = current := Except.ok.inj (h.symm.trans hcurrent)
    rw [hrestored hred] at hcontent
    exact ⟨hcontent.symm, red, hred⟩
  · rintro ⟨hcontent, red, hred⟩
    have hfields := fields_redacted h hred
    refine ⟨_, hredact, mergePalworldSettings_eq_ok.mpr ⟨red, parsed, parsed, hred, h, h, ?_,
      ⟨?_, hkeys, hkeys⟩, ⟨validate_redacted hfields hvalues, hvalues, hvalues⟩, ?_,
      checkSecrets_self hkeys⟩⟩
    · rw [hrestored hred, hcontent]
    · rwa [keys_redacted hfields]
    · intro f hf _
      rw [← keys_redacted hfields]
      exact List.mem_map_of_mem hf

/-- A secret with a comma in it, over one line. -/
theorem merge_redact_iff_quoted :
    ∃ text, redactPalworldSettings (str
        "[/Script/Pal.PalGameWorldSettings]\nOptionSettings=(ServerName=a,AdminPassword=\"b,c\")") =
          .ok text ∧
      mergePalworldSettings text (str
        "[/Script/Pal.PalGameWorldSettings]\nOptionSettings=(ServerName=a,AdminPassword=\"b,c\")") =
          .ok (str
        "[/Script/Pal.PalGameWorldSettings]\nOptionSettings=(ServerName=a,AdminPassword=\"b,c\")") := by
  obtain ⟨parsed, hparsed, hchecks⟩ := exists_ok (x := parseIni (str
      "[/Script/Pal.PalGameWorldSettings]\nOptionSettings=(ServerName=a,AdminPassword=\"b,c\")"))
    (p := fun parsed => decide (parsed.fields.map IniValue.key).Nodup &&
      decide (validateKnownValues parsed.fields = .ok ()) &&
      (parsed.fields.all fun f => f.valueStart ≤ f.valueEnd) &&
      (parseIni (parsed.render (secretsAs [] parsed.entries))).toOption.any fun _ => true)
    (by decide +kernel)
  simp only [Bool.and_eq_true, decide_eq_true_eq, List.all_eq_true] at hchecks
  obtain ⟨⟨⟨hkeys, hvalues⟩, hspaces⟩, hbare⟩ := hchecks
  obtain ⟨bare, hbare, -⟩ := exists_ok hbare
  exact (merge_redact_iff hparsed hkeys hvalues).mpr ⟨fun f hf _ => hspaces f hf, bare, hbare⟩

/-- A file that has a blank value with so much white space in its place. -/
def secretFile (spaces : String) (secret : String) : Str :=
  str ("[/Script/Pal.PalGameWorldSettings]\nOptionSettings=(ServerName=" ++ spaces ++
    ",AdminPassword=" ++ secret ++ ")")

/-- A blank value with a space in its place is one space longer after the round trip. -/
theorem merge_secretFile :
    redactPalworldSettings (secretFile " " "b") = .ok (secretFile " " "\"\"") ∧
      mergePalworldSettings (secretFile " " "\"\"") (secretFile " " "b") =
        .ok (secretFile "  " "b") := by
  decide +kernel

/-- A blank value with a space in its place: the space is doubled. -/
theorem merge_redact_blank :
    ∃ parsed, parseIni (secretFile " " "b") = .ok parsed ∧
      (parsed.fields.map IniValue.key).Nodup ∧ validateKnownValues parsed.fields = .ok () ∧
      ¬∃ text, redactPalworldSettings (secretFile " " "b") = .ok text ∧
        mergePalworldSettings text (secretFile " " "b") = .ok (secretFile " " "b") := by
  obtain ⟨parsed, hparsed, hchecks⟩ := exists_ok (x := parseIni (secretFile " " "b"))
    (p := fun parsed => decide (parsed.fields.map IniValue.key).Nodup &&
      decide (validateKnownValues parsed.fields = .ok ())) (by decide +kernel)
  rw [Bool.and_eq_true, decide_eq_true_eq, decide_eq_true_eq] at hchecks
  refine ⟨parsed, hparsed, hchecks.1, hchecks.2, ?_⟩
  rintro ⟨text, htext, hmerge⟩
  obtain ⟨hredact, hmerged⟩ := merge_secretFile
  obtain rfl : secretFile " " "\"\"" = text := Except.ok.inj (hredact.symm.trans htext)
  have hsame : secretFile "  " "b" = secretFile " " "b" := Except.ok.inj (hmerged.symm.trans hmerge)
  exact absurd hsame (by decide +kernel)

end SameFile

end PalworldManager
