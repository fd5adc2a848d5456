/-
# Edits are conservative

To save a setting is to put another text in the place of its value.  A value that
`serialize_setting_value` wrote leaves the scan of the tuple as the old one did, so that
no other entry is read in another way.  It cannot make a section or an option either,
unless the tuple goes over several lines: there the end of the section is looked for
again, and the file may be rejected, which `save` finds before it writes.
-/

import PalworldManager.PalworldSettings.Layout

namespace PalworldManager

open Text

section Entry

variable {raw v : Str} {f : IniValue}

/-- An entry keeps its text. -/
theorem parseEntry_raw (raw : Str) : (parseEntry raw).raw = raw := by
  rw [parseEntry]
  split
  · rfl
  · split_ifs <;> rfl

/-- The parts of an entry that has a key: what stands before the equal sign, and the
white space on either side of the value.  Of a blank value the white space is found
twice. -/
structure EntryParts (raw : Str) (f : IniValue) (u w₁ w₂ : Str) : Prop where
  nest : nest 0 .outside u = some (0, .outside)
  blank_left : Str.IsBlank w₁
  blank_right : Str.IsBlank w₂
  isKey : isIniKey (Str.strip u) = true
  key : f.key = Str.strip u
  equal : ∀ t, topLevelEqual 0 .outside (u ++ .ofChar '=' :: t) = some u.length
  start : f.valueStart = u.length + 1 + w₁.length
  stop : f.valueEnd = raw.length - w₂.length
  left : raw.take f.valueStart = u ++ .ofChar '=' :: w₁
  right : raw.drop f.valueEnd = w₂
  value : f.value = [] ∧ w₁ = w₂ ∧ raw = u ++ .ofChar '=' :: w₁ ∨
    Str.IsTrimmed f.value ∧ raw = u ++ .ofChar '=' :: (w₁ ++ f.value ++ w₂)

/-- A value between white space is read as it is. -/
theorem parseValue_of_parts {u w₁ w₂ : Str} (hw₁ : Str.IsBlank w₁) (hw₂ : Str.IsBlank w₂)
    (hv : v = [] ∨ Str.IsTrimmed v) :
    (parseValue (u ++ .ofChar '=' :: (w₁ ++ v ++ w₂)) u.length).key = Str.strip u ∧
      (parseValue (u ++ .ofChar '=' :: (w₁ ++ v ++ w₂)) u.length).value = v := by
  have hdrop : (u ++ .ofChar '=' :: (w₁ ++ v ++ w₂)).drop (u.length + 1) = w₁ ++ v ++ w₂ := by
    rw [List.drop_length_add_append]
    rfl
  constructor
  · simp only [parseValue, List.take_left]
  · rcases hv with rfl | hv
    · have hblank : Str.IsBlank (w₁ ++ [] ++ w₂) := fun c hc => by
        rw [List.append_nil, List.mem_append] at hc
        exact hc.elim (hw₁ c) (hw₂ c)
      simp only [parseValue, hdrop, Str.lstrip_of_isBlank hblank, Str.rstrip_of_isBlank hblank]
      rw [if_pos]
      simp only [List.length_append, List.length_cons, List.length_nil]
      omega
    · have hpos := List.length_pos_of_ne_nil hv.ne_nil
      have hleading : (w₁ ++ v ++ w₂).length - (v ++ w₂).length = w₁.length := by
        simp only [List.length_append]
        omega
      have htrailing : (w₁ ++ v ++ w₂).length - (w₁ ++ v).length = w₂.length := by
        simp only [List.length_append]
        omega
      simp only [parseValue, hdrop, Str.lstrip_append hw₁ hv, Str.rstrip_append hw₂ hv, hleading,
        htrailing]
      have hend : (u ++ .ofChar '=' :: (w₁ ++ v ++ w₂)).length - w₂.length =
          (u ++ .ofChar '=' :: (w₁ ++ v)).length := by
        simp only [List.length_append, List.length_cons]
        omega
      have hsplit : u ++ .ofChar '=' :: (w₁ ++ v ++ w₂) = u ++ .ofChar '=' :: (w₁ ++ v) ++ w₂ := by
        simp
      have hstart : u.length + 1 + w₁.length = (u ++ .ofChar '=' :: w₁).length := by
        simp only [List.length_append, List.length_cons]
        omega
      rw [hend, hstart, if_neg, hsplit, List.take_left]
      · have hsplit' : u ++ .ofChar '=' :: (w₁ ++ v) = u ++ .ofChar '=' :: w₁ ++ v := by simp
        rw [hsplit', List.drop_left]
      · simp only [List.length_append, List.length_cons]
        omega

/-- An entry that has a key is taken apart. -/
theorem parseEntry_parts (h : IsEntry raw) (hf : (parseEntry raw).field = some f) :
    ∃ u w₁ w₂, EntryParts raw f u w₁ w₂ := by
  rw [parseEntry] at hf
  cases hi : topLevelEqual 0 .outside raw with
  | none => simp [hi] at hf
  | some i =>
    obtain ⟨u, t, rfl, rfl, hequal, hnest⟩ := topLevelEqual_eq_some hi
    simp only [hi, List.take_left] at hf
    split_ifs at hf with hkey
    obtain rfl : parseValue (u ++ .ofChar '=' :: t) u.length = f := by simpa using hf
    have hdrop : (u ++ .ofChar '=' :: t).drop (u.length + 1) = t := by
      rw [List.drop_length_add_append]
      rfl
    have hleft : t.takeWhile Point.isSpace ++ Str.lstrip t = t :=
      List.takeWhile_append_dropWhile
    have hright : Str.rstrip t ++ t.rtakeWhile Point.isSpace = t :=
      List.rdropWhile_append_rtakeWhile ..
    have hleading : t.length - (Str.lstrip t).length = (t.takeWhile Point.isSpace).length := by
      have hlen := congrArg List.length hleft
      rw [List.length_append] at hlen
      omega
    have htrailing : t.length - (Str.rstrip t).length = (t.rtakeWhile Point.isSpace).length := by
      have hlen := congrArg List.length hright
      rw [List.length_append] at hlen
      omega
    refine ⟨u, t.takeWhile Point.isSpace, t.rtakeWhile Point.isSpace, hnest _ h,
      Str.isBlank_takeWhile t, Str.isBlank_rtakeWhile t, hkey, ?_, hequal, ?_, ?_, ?_, ?_, ?_⟩
    · simp only [parseValue, List.take_left]
    · simp only [parseValue, hdrop, hleading]
    · simp only [parseValue, hdrop, htrailing]
    · simp only [parseValue, hdrop, hleading]
      rw [Nat.add_assoc, List.take_length_add_append, Nat.add_comm 1, List.take_succ_cons,
        ← List.prefix_iff_eq_take.mp (List.takeWhile_prefix _)]
    · have hsuffix : t.rtakeWhile Point.isSpace <:+ u ++ .ofChar '=' :: t :=
        (List.rtakeWhile_suffix _ _).trans ((List.suffix_cons ..).trans (List.suffix_append ..))
      simp only [parseValue, hdrop, htrailing]
      exact (List.suffix_iff_eq_drop.mp hsuffix).symm
    · rcases Str.strip_parts t with ⟨hall, hsame⟩ | ⟨v, hv, ht⟩
      · have hblank : Str.IsBlank t := by
          rw [hall]
          exact Str.isBlank_takeWhile t
        have hempty : Str.IsBlank [] := nofun
        have hvalue := (parseValue_of_parts (v := []) (u := u) hblank hempty (.inl rfl)).2
        rw [List.append_nil, List.append_nil] at hvalue
        exact .inl ⟨hvalue, hsame, by rw [← hall]⟩
      · have hvalue := (parseValue_of_parts (u := u) (Str.isBlank_takeWhile t)
          (Str.isBlank_rtakeWhile t) (.inr hv)).2
        rw [← ht] at hvalue
        rw [hvalue]
        exact .inr ⟨hv, by rw [← ht]⟩

/-- What is put in the place of a value stands between the same white space. -/
theorem EntryParts.replaceValue {u w₁ w₂ : Str} (h : EntryParts raw f u w₁ w₂) (v : Str) :
    (parseEntry raw).replaceValue f v = u ++ .ofChar '=' :: (w₁ ++ v ++ w₂) := by
  rw [IniEntry.replaceValue, parseEntry_raw, h.left, h.right]
  simp

/-- The parts are parts of the entry. -/
theorem EntryParts.mem {u w₁ w₂ : Str} (h : EntryParts raw f u w₁ w₂) {c : Point}
    (hc : c ∈ u ++ w₁ ++ w₂) : c ∈ raw := by
  rcases h.value with ⟨-, rfl, hraw⟩ | ⟨-, hraw⟩ <;>
    · rw [hraw]
      simp only [List.mem_append, List.mem_cons] at hc ⊢
      tauto

/-- **What is read as a value** may be put in the place of one. -/
theorem isValue_value (h : IsEntry raw) (hf : (parseEntry raw).field = some f) :
    IsValue f.value := by
  obtain ⟨u, w₁, w₂, hp⟩ := parseEntry_parts h hf
  rcases hp.value with ⟨hnil, -⟩ | ⟨hv, hraw⟩
  · rw [hnil]
    exact ⟨rfl, .inl rfl⟩
  · refine ⟨?_, .inr hv⟩
    have hsign : nest 0 .outside [.ofChar '='] = some (0, .outside) := rfl
    rw [IsEntry, hraw, nest_append, hp.nest, Option.bind_some, ← List.singleton_append, nest_append,
      hsign, Option.bind_some, List.append_assoc, nest_append, isInert_of_isBlank hp.blank_left 0,
      Option.bind_some, nest_append] at h
    obtain ⟨⟨depth, q⟩, hvalue, hrest⟩ := Option.bind_eq_some_iff.mp h
    obtain ⟨rfl, rfl⟩ := eq_of_nest_isBlank hp.blank_right hrest
    exact hvalue

/-- **An entry with another value** is an entry, with the same key and that value. -/
theorem parseEntry_replaceValue (h : IsEntry raw) (hf : (parseEntry raw).field = some f)
    (hv : IsValue v) :
    IsEntry ((parseEntry raw).replaceValue f v) ∧
      ∃ f', (parseEntry ((parseEntry raw).replaceValue f v)).field = some f' ∧ f'.key = f.key ∧
        f'.value = v := by
  obtain ⟨u, w₁, w₂, hp⟩ := parseEntry_parts h hf
  rw [hp.replaceValue]
  constructor
  · have hsign : nest 0 .outside [.ofChar '='] = some (0, .outside) := rfl
    have hentry : nest 0 .outside v = some (0, .outside) := hv.entry
    rw [IsEntry, nest_append, hp.nest, Option.bind_some, ← List.singleton_append, nest_append,
      hsign, Option.bind_some, List.append_assoc, nest_append, isInert_of_isBlank hp.blank_left 0,
      Option.bind_some, nest_append, hentry, Option.bind_some, isInert_of_isBlank hp.blank_right 0]
  · obtain ⟨hk, hval⟩ := parseValue_of_parts (u := u) hp.blank_left hp.blank_right hv.trimmed
    refine ⟨parseValue (u ++ .ofChar '=' :: (w₁ ++ v ++ w₂)) u.length, ?_, hk.trans hp.key.symm, hval⟩
    rw [parseEntry, hp.equal]
    simp only [List.take_left, hp.isKey, if_true]

/-- What an edit puts into an entry is what was there, or the value. -/
theorem mem_replaceValue (h : IsEntry raw) (hf : (parseEntry raw).field = some f) {c : Point}
    (hc : c ∈ (parseEntry raw).replaceValue f v) : c ∈ raw ∨ c ∈ v ∨ c = .ofChar '=' := by
  obtain ⟨u, w₁, w₂, hp⟩ := parseEntry_parts h hf
  rw [hp.replaceValue] at hc
  simp only [List.mem_append, List.mem_cons] at hc
  rcases hc with hc | rfl | (hc | hc) | hc
  · exact .inl (hp.mem (by simp [hc]))
  · exact .inr (.inr rfl)
  · exact .inl (hp.mem (by simp [hc]))
  · exact .inr (.inl hc)
  · exact .inl (hp.mem (by simp [hc]))

end Entry

/-- A replacement that a form may ask for: the key occurs once, it has a definition, and
the text is what `serialize_setting_value` gives for some value. -/
structure IsEdit (parsed : ParsedIni) (key serialized : Str) : Prop where
  once : (parsed.entries.filter fun entry => entry.key = some key).length = 1
  serialized : ∃ d submitted, settingDefinition key = some d ∧
    serializeSettingValue d submitted = .ok serialized

/-- What an entry is after an edit. -/
structure EntryKept (replacements : List (Str × Str)) (entry entry' : IniEntry) : Prop where
  kept : (∀ key, entry.key = some key → replacements.lookup key = none) → entry' = entry
  replaced : ∀ key serialized, entry.key = some key →
    replacements.lookup key = some serialized →
      ∃ field, entry'.field = some field ∧ field.key = key ∧
        ∀ d submitted, settingDefinition key = some d →
          serializeSettingValue d submitted = .ok serialized →
            parseSettingValue d field.value = parseSettingValue d submitted

/-- What a file is after an edit. -/
structure Conserves (replacements : List (Str × Str)) (parsed parsed' : ParsedIni) : Prop where
  head : parsed'.head = parsed.head
  suffix : parsed'.suffix = parsed.suffix
  entries : List.Forall₂ (EntryKept replacements) parsed.entries parsed'.entries

/-- The text between the parentheses. -/
def ParsedIni.tuple (parsed : ParsedIni) : Str := joinEntries (parsed.entries.map IniEntry.raw)

section Render

variable {parsed : ParsedIni} {replacements : List (Str × Str)} {raw : Str} {es : List Str}
  {P S T : Str}

/-- What is looked up is a definition. -/
theorem settingDefinition_mem {key : Str} {d : SettingDefinition}
    (h : settingDefinition key = some d) : d ∈ settingDefinitions := List.mem_of_find?_eq_some h

/-- The replacements are values. -/
theorem IsEdit.isValueText {key v : Str} (h : IsEdit parsed key v) : IsValueText v := by
  obtain ⟨d, submitted, hd, hv⟩ := h.serialized
  exact (serializeSettingValue_eq_ok (settingDefinition_mem hd) hv).1

/-- How an entry is rendered: as it was, or with the text that is to replace its value. -/
theorem render_cases (replacements : List (Str × Str)) (entry : IniEntry) :
    entry.render replacements = entry.raw ∧
        (∀ key, entry.key = some key → replacements.lookup key = none) ∨
      ∃ field v, entry.field = some field ∧ replacements.lookup field.key = some v ∧
        entry.render replacements = entry.replaceValue field v := by
  rw [IniEntry.render, IniEntry.key]
  cases entry.field with
  | none => exact .inl ⟨rfl, by simp⟩
  | some field =>
    cases hv : replacements.lookup field.key with
    | none =>
      refine .inl ⟨by simp only [hv], fun key hkey => ?_⟩
      obtain rfl : field.key = key := by simpa using hkey
      exact hv
    | some v => exact .inr ⟨field, v, rfl, hv, by simp only [hv]⟩

/-- What is looked up is in the list. -/
theorem mem_of_lookup {key v : Str} (h : replacements.lookup key = some v) :
    (key, v) ∈ replacements := by
  obtain ⟨l₁, l₂, rfl, -⟩ := List.lookup_eq_some_iff.mp h
  simp

/-- **An edited entry** is an entry. -/
theorem isEntry_render (h : IsEntry raw) (hr : ∀ r ∈ replacements, IsValue r.2) :
    IsEntry ((parseEntry raw).render replacements) := by
  rcases render_cases replacements (parseEntry raw) with ⟨hsame, -⟩ | ⟨f, v, hf, hv, heq⟩
  · rwa [hsame, parseEntry_raw]
  · rw [heq]
    exact (parseEntry_replaceValue h hf (hr _ (mem_of_lookup hv))).1

/-- An edited entry is read as the claim of the edit says. -/
theorem entryKept_render (h : IsEntry raw)
    (hr : ∀ r ∈ replacements, IsEdit parsed r.1 r.2) :
    EntryKept replacements (parseEntry raw)
      (parseEntry ((parseEntry raw).render replacements)) := by
  rcases render_cases replacements (parseEntry raw) with ⟨hsame, hnone⟩ | ⟨f, v, hf, hv, heq⟩
  · rw [hsame, parseEntry_raw]
    refine ⟨fun _ => rfl, fun key v hkey hlookup => ?_⟩
    rw [hnone key hkey] at hlookup
    cases hlookup
  · have hedit := hr _ (mem_of_lookup hv)
    obtain ⟨-, f', hf', hkey', hval'⟩ := parseEntry_replaceValue h hf hedit.isValueText.isValue
    rw [heq]
    have hkey : (parseEntry raw).key = some f.key := by rw [IniEntry.key, hf, Option.map_some]
    refine ⟨fun hkept => ?_, fun key v₁ hkey₁ hlookup => ?_⟩
    · rw [hkept f.key hkey] at hv
      cases hv
    · obtain rfl : f.key = key := by simpa [hkey] using hkey₁
      obtain rfl : v = v₁ := by simpa [hv] using hlookup
      refine ⟨f', hf', hkey', fun d submitted hd hser => ?_⟩
      rw [hval']
      exact (serializeSettingValue_eq_ok (settingDefinition_mem hd) hser).2

/-- No edit makes an entry empty: one that has a key has an equal sign. -/
theorem render_ne_nil (h : IsEntry raw) (hne : raw ≠ []) :
    (parseEntry raw).render replacements ≠ [] := by
  rcases render_cases replacements (parseEntry raw) with ⟨hsame, -⟩ | ⟨f, v, hf, -, heq⟩
  · rwa [hsame, parseEntry_raw]
  · obtain ⟨u, w₁, w₂, hp⟩ := parseEntry_parts h hf
    rw [heq, hp.replaceValue]
    simp

/-- No edit brings a line feed in. -/
theorem newline_mem_render (h : IsEntry raw) (hr : ∀ r ∈ replacements, IsEdit parsed r.1 r.2)
    (hc : newline ∈ (parseEntry raw).render replacements) : newline ∈ raw := by
  rcases render_cases replacements (parseEntry raw) with ⟨hsame, -⟩ | ⟨f, v, hf, hv, heq⟩
  · rwa [hsame, parseEntry_raw] at hc
  · rw [heq] at hc
    rcases mem_replaceValue h hf hc with hc | hc | hc
    · exact hc
    · exact absurd hc (hr _ (mem_of_lookup hv)).isValueText.oneLine
    · exact absurd hc (by decide)

/-- What is joined is empty of no entry, or of an empty one. -/
theorem joinEntries_eq_nil : joinEntries es = [] ↔ es = [] ∨ es = [[]] := by
  cases es with
  | nil => simp [joinEntries]
  | cons e es =>
    by_cases hes : es = []
    · subst hes
      simp
    · rw [joinEntries_cons e hes]
      simp [hes]

/-- What is joined has the characters of the entries, and commas. -/
theorem mem_joinEntries {c : Point} (hc : c ∈ joinEntries es) :
    c = .ofChar ',' ∨ ∃ e ∈ es, c ∈ e := by
  induction es with
  | nil => simp [joinEntries] at hc
  | cons e es ih =>
    by_cases hes : es = []
    · subst hes
      exact .inr ⟨e, List.mem_cons_self, by simpa using hc⟩
    · rw [joinEntries_cons e hes, List.mem_append, List.mem_cons] at hc
      rcases hc with hc | hc | hc
      · exact .inr ⟨e, List.mem_cons_self, hc⟩
      · exact .inl hc
      · rcases ih hc with h | ⟨e', he', h⟩
        · exact .inl h
        · exact .inr ⟨e', List.mem_cons_of_mem _ he', h⟩

/-- The characters of an entry are in what is joined. -/
theorem subset_joinEntries {e : Str} (he : e ∈ es) {c : Point} (hc : c ∈ e) :
    c ∈ joinEntries es := by
  induction es with
  | nil => cases he
  | cons e' es ih =>
    by_cases hes : es = []
    · subst hes
      obtain rfl : e = e' := by simpa using he
      simpa using hc
    · rw [joinEntries_cons e' hes, List.mem_append, List.mem_cons]
      rcases List.mem_cons.mp he with rfl | he
      · exact .inl hc
      · exact .inr (.inr (ih he))

/-- **What `parse_ini` accepts after a head** is entries, joined by commas, and the
closing parenthesis, in front of which no section and no option starts. -/
theorem parseTuple_eq_ok (h : parseTuple P T = .ok parsed) :
    ∃ es S, T = joinEntries es ++ .ofChar ')' :: S ∧ (∀ e ∈ es, IsEntry e) ∧
      (es = [] ↔ joinEntries es = []) ∧ parsed = ⟨P, es.map parseEntry, .ofChar ')' :: S⟩ ∧
      finditer sectionPattern P.length 0 opening T = [] ∧
      finditer optionPattern 0 0 opening (T.take (tupleEnd P T - P.length)) = [] ∧
      P.length + (joinEntries es).length < tupleEnd P T := by
  rw [parseTuple] at h
  split_ifs at h with hsections hoptions
  cases hclosing : findClosingParenthesis 1 .outside T with
  | none => simp [hclosing] at h
  | some n =>
    simp only [hclosing] at h
    split_ifs at h with hend
    obtain ⟨es, hes, hparsed⟩ := except_map_eq_ok.mp h
    obtain ⟨u, S, rfl, rfl⟩ := findClosing_eq_some hclosing
    rw [List.take_left] at hes
    obtain ⟨rfl, hentries, hnil⟩ := splitEntries_eq_ok hes
    rw [List.drop_left] at hparsed
    exact ⟨es, S, rfl, hentries, hnil, hparsed.symm, not_not.mp hsections, not_not.mp hoptions,
      by omega⟩

/-- Entries after a head, with nothing that the patterns find, are accepted. -/
theorem parseTuple_joinEntries (hes : ∀ e ∈ es, IsEntry e) (hnil : es = [] ↔ joinEntries es = [])
    (hT : T = joinEntries es ++ .ofChar ')' :: S)
    (hsections : finditer sectionPattern P.length 0 opening T = [])
    (hoptions : finditer optionPattern 0 0 opening (T.take (tupleEnd P T - P.length)) = [])
    (hend : P.length + (joinEntries es).length < tupleEnd P T) :
    parseTuple P T = .ok ⟨P, es.map parseEntry, .ofChar ')' :: S⟩ := by
  rw [parseTuple, if_neg (not_not.mpr hsections), if_neg (not_not.mpr hoptions)]
  subst hT
  rw [findClosing_joinEntries hes]
  simp only [List.take_left, List.drop_left]
  rw [if_neg (by omega), splitEntries_joinEntries hes hnil, Except.map]

end Render

section OneLine

variable {m : Pattern} {i : ℕ} {P J S : Str}

/-- The parenthesis that closes the tuple, as the character before what follows. -/
abbrev closing : Option Point := some (.ofChar ')')

/-- Where the section ends after the tuple, when no section starts in the tuple. -/
def suffixEnd (S : Str) : ℕ := (searchFrom nextSectionPattern 0 closing S).getD S.length

/-- The last character of a tuple closes it. -/
theorem lastBefore_tuple (J : Str) : lastBefore opening (J ++ [.ofChar ')']) = closing := by
  simp [lastBefore]

/-- After the opening parenthesis no line starts. -/
theorem atLineStart_opening : atLineStart opening = false := by decide

/-- With its parenthesis a tuple is still one line. -/
theorem newline_notMem_tuple (hJ : newline ∉ J) : newline ∉ J ++ [Point.ofChar ')'] := by
  have hclose : newline ∉ [Point.ofChar ')'] := by decide
  rw [List.mem_append, not_or]
  exact ⟨hJ, hclose⟩

/-- In a tuple of one line nothing is found. -/
theorem finditer_tuple (hm : ∀ before t, (m before t).isSome → atLineStart before)
    (hJ : newline ∉ J) (S : Str) :
    finditer m i 0 opening (J ++ .ofChar ')' :: S) =
      (finditer m 0 0 closing S).map fun r => (r.1 + (i + J.length + 1), r.2 + (i + J.length + 1)) := by
  have hline := finditer_oneLine (i := i) hm (newline_notMem_tuple hJ) atLineStart_opening S
  rw [List.append_assoc, List.singleton_append, lastBefore_tuple, List.length_append,
    List.length_singleton, ← Nat.add_assoc] at hline
  rw [hline, ← finditer_shift, Nat.zero_add]

/-- The section of a tuple of one line ends where it ends behind the tuple. -/
theorem tupleEnd_oneLine (hJ : newline ∉ J) (P S : Str) :
    tupleEnd P (J ++ .ofChar ')' :: S) = P.length + J.length + 1 + suffixEnd S := by
  have hline := searchFrom_oneLine (i := P.length) nextSectionPattern_atLineStart
    (newline_notMem_tuple hJ) atLineStart_opening S
  rw [List.append_assoc, List.singleton_append, lastBefore_tuple, List.length_append,
    List.length_singleton, ← Nat.add_assoc] at hline
  have hshift : searchFrom nextSectionPattern (0 + (P.length + J.length + 1)) closing S =
      (searchFrom nextSectionPattern 0 closing S).map (· + (P.length + J.length + 1)) :=
    searchFrom_shift _
  rw [Nat.zero_add] at hshift
  rw [tupleEnd, suffixEnd, hline, hshift, List.length_append, List.length_cons]
  cases searchFrom nextSectionPattern 0 closing S with
  | none =>
    simp only [Option.map_none, Option.getD_none]
    omega
  | some a =>
    simp only [Option.map_some, Option.getD_some]
    omega

/-- **Of a tuple of one line** the parser asks nothing but that no section and no option
follows. -/
theorem oneLine_iff (hJ : newline ∉ J) :
    (finditer sectionPattern P.length 0 opening (J ++ .ofChar ')' :: S) = [] ∧
        finditer optionPattern 0 0 opening ((J ++ .ofChar ')' :: S).take
          (tupleEnd P (J ++ .ofChar ')' :: S) - P.length)) = []) ↔
      finditer sectionPattern 0 0 closing S = [] ∧
        finditer optionPattern 0 0 closing (S.take (suffixEnd S)) = [] := by
  have htake : (J ++ .ofChar ')' :: S).take (tupleEnd P (J ++ .ofChar ')' :: S) - P.length) =
      J ++ .ofChar ')' :: S.take (suffixEnd S) := by
    have hlen : P.length + J.length + 1 + suffixEnd S - P.length =
        J.length + (suffixEnd S + 1) := by omega
    rw [tupleEnd_oneLine hJ, hlen, List.take_length_add_append, List.take_succ_cons]
  rw [htake, finditer_tuple sectionPattern_atLineStart hJ,
    finditer_tuple optionPattern_atLineStart hJ, List.map_eq_nil_iff, List.map_eq_nil_iff]

end OneLine

section Conserves

variable {content : Str} {parsed : ParsedIni} {replacements : List (Str × Str)} {es : List Str}

/-- The entries after an edit. -/
def editedEntries (replacements : List (Str × Str)) (es : List Str) : List Str :=
  es.map fun raw => (parseEntry raw).render replacements

/-- What is read of the edited entries is what the edit says of each. -/
theorem conserves_entries (hes : ∀ e ∈ es, IsEntry e)
    (hr : ∀ r ∈ replacements, IsEdit parsed r.1 r.2) :
    List.Forall₂ (EntryKept replacements) (es.map parseEntry)
      ((editedEntries replacements es).map parseEntry) := by
  rw [editedEntries, List.map_map, List.forall₂_map_left_iff, List.forall₂_map_right_iff,
    List.forall₂_same]
  exact fun e he => entryKept_render (hes e he) hr

/-- Edited entries are entries. -/
theorem isEntry_editedEntries (hes : ∀ e ∈ es, IsEntry e)
    (hr : ∀ r ∈ replacements, IsValue r.2) :
    ∀ e ∈ editedEntries replacements es, IsEntry e := by
  intro e he
  obtain ⟨raw, hraw, rfl⟩ := List.mem_map.mp he
  exact isEntry_render (hes raw hraw) hr

/-- An edit leaves no tuple empty, and fills none. -/
theorem editedEntries_eq_nil (hes : ∀ e ∈ es, IsEntry e) (hnil : es = [] ↔ joinEntries es = []) :
    editedEntries replacements es = [] ↔ joinEntries (editedEntries replacements es) = [] := by
  constructor
  · intro h
    rw [h]
    rfl
  · intro h
    rcases joinEntries_eq_nil.mp h with h | h
    · exact h
    · obtain ⟨raw, rfl⟩ : ∃ raw, es = [raw] := by
        have hlen := congrArg List.length h
        rw [editedEntries, List.length_map, List.length_singleton] at hlen
        exact List.length_eq_one_iff.mp hlen
      have hraw : raw ≠ [] := by
        intro hempty
        have hjoin : joinEntries [raw] = [] := by rw [joinEntries_singleton, hempty]
        exact absurd (hnil.mpr hjoin) (by simp)
      obtain hempty : (parseEntry raw).render replacements = [] := by simpa [editedEntries] using h
      exact absurd hempty (render_ne_nil (hes raw List.mem_cons_self) hraw)

/-- No edit makes a line. -/
theorem newline_notMem_editedEntries (hes : ∀ e ∈ es, IsEntry e)
    (hr : ∀ r ∈ replacements, IsEdit parsed r.1 r.2) (h : newline ∉ joinEntries es) :
    newline ∉ joinEntries (editedEntries replacements es) := by
  intro hmem
  rcases mem_joinEntries hmem with hcomma | ⟨e, he, hc⟩
  · exact absurd hcomma (by decide)
  · obtain ⟨raw, hraw, rfl⟩ := List.mem_map.mp he
    exact h (subset_joinEntries hraw (newline_mem_render (hes raw hraw) hr hc))

/-- With no replacement every entry is rendered as it was. -/
theorem render_nil (entry : IniEntry) : entry.render [] = entry.raw := by
  rw [IniEntry.render]
  cases entry.field <;> rfl

/-- An accepted file, taken apart. -/
theorem exists_entries (h : parseIni content = .ok parsed) :
    ∃ n es S, IniHead parsed.head n ∧
      content = parsed.head ++ (joinEntries es ++ .ofChar ')' :: S) ∧
      (∀ e ∈ es, IsEntry e) ∧ (es = [] ↔ joinEntries es = []) ∧
      parsed.entries = es.map parseEntry ∧ parsed.suffix = .ofChar ')' :: S ∧
      parsed.tuple = joinEntries es ∧
      finditer sectionPattern parsed.head.length 0 opening (joinEntries es ++ .ofChar ')' :: S) =
        [] ∧
      finditer optionPattern 0 0 opening ((joinEntries es ++ .ofChar ')' :: S).take
        (tupleEnd parsed.head (joinEntries es ++ .ofChar ')' :: S) - parsed.head.length)) = [] := by
  obtain ⟨n, T, hhead, hcontent, htuple⟩ := exists_iniHead h
  obtain ⟨es, S, rfl, hes, hnil, hparsed, hsections, hoptions, -⟩ := parseTuple_eq_ok htuple
  have hentries : parsed.entries = es.map parseEntry := by rw [hparsed]
  refine ⟨n, es, S, hhead, hcontent, hes, hnil, hentries, by rw [hparsed], ?_, hsections, hoptions⟩
  have hraw : IniEntry.raw ∘ parseEntry = id := funext parseEntry_raw
  rw [ParsedIni.tuple, hentries, List.map_map, hraw, List.map_id]

/-- What is rendered is the head, the edited entries, and the suffix. -/
theorem render_eq_append (hentries : parsed.entries = es.map parseEntry) :
    parsed.render replacements =
      parsed.head ++ (joinEntries (editedEntries replacements es) ++ parsed.suffix) := by
  rw [ParsedIni.render, hentries, List.map_map, List.append_assoc]
  rfl

/-- **What is read of an edited file** is the edited entries, one by one. -/
theorem parseIni_render_eq_ok {parsed' : ParsedIni} (h : parseIni content = .ok parsed)
    (hr : ∀ r ∈ replacements, IsValue r.2)
    (h' : parseIni (parsed.render replacements) = .ok parsed') :
    parsed' = ⟨parsed.head, parsed.entries.map fun entry => parseEntry (entry.render replacements),
      parsed.suffix⟩ := by
  obtain ⟨n, es, S, hhead, -, hes, hnil, hentries, hsuffix, -⟩ := exists_entries h
  have hes' := isEntry_editedEntries hes hr
  rw [render_eq_append hentries, hsuffix, parseIni_append hhead] at h'
  obtain ⟨es₁, S₁, hT, hes₁, hnil₁, rfl, -⟩ := parseTuple_eq_ok h'
  -- both are what the scanner takes apart of one text
  have hclose := findClosing_joinEntries hes' S
  rw [hT, findClosing_joinEntries hes₁] at hclose
  obtain ⟨hjoin, hrest⟩ := List.append_inj hT (Option.some.inj hclose).symm
  have hsame : editedEntries replacements es = es₁ := by
    have hsplit := splitEntries_joinEntries hes' (editedEntries_eq_nil hes hnil)
    rw [hjoin, splitEntries_joinEntries hes₁ hnil₁] at hsplit
    exact (Except.ok.inj hsplit).symm
  rw [← hsame, hentries, hsuffix, hrest, editedEntries, List.map_map, List.map_map]
  rfl

/-- **With no replacement** the file is rendered as it was. -/
theorem render_nil_eq (h : parseIni content = .ok parsed) : parsed.render [] = content := by
  obtain ⟨_, es, S, -, hcontent, -, -, hentries, hsuffix, -⟩ := exists_entries h
  have hraw : IniEntry.render [] ∘ parseEntry = id := by
    funext raw
    exact (render_nil _).trans (parseEntry_raw raw)
  rw [ParsedIni.render, hentries, hsuffix, List.map_map, hraw, List.map_id, hcontent,
    List.append_assoc]

/-- **Edits are conservative and effective.**  What is rendered with some values replaced,
if it is accepted, has the entries that were there, with the new values; it is accepted
when the tuple is one line; and with no replacement it is what was read. -/
theorem render_conserves (h : parseIni content = .ok parsed)
    (hr : ∀ r ∈ replacements, IsEdit parsed r.1 r.2) :
    (∀ parsed', parseIni (parsed.render replacements) = .ok parsed' →
        Conserves replacements parsed parsed') ∧
      (newline ∉ parsed.tuple → ∃ parsed', parseIni (parsed.render replacements) = .ok parsed') ∧
      parsed.render [] = content := by
  obtain ⟨n, es, S, hhead, -, hes, hnil, hentries, hsuffix, htuple, hsections, hoptions⟩ :=
    exists_entries h
  have hvalues : ∀ r ∈ replacements, IsValue r.2 := fun r hmem => (hr r hmem).isValueText.isValue
  have hes' := isEntry_editedEntries hes hvalues
  have hnil' : editedEntries replacements es = [] ↔
      joinEntries (editedEntries replacements es) = [] := editedEntries_eq_nil hes hnil
  have hrender : parsed.render replacements = parsed.head ++
      (joinEntries (editedEntries replacements es) ++ .ofChar ')' :: S) := by
    rw [render_eq_append hentries, hsuffix]
  have hread (parsed' : ParsedIni) :
      parseIni (parsed.render replacements) = .ok parsed' → Conserves replacements parsed parsed' := by
    intro h'
    rw [parseIni_render_eq_ok h hvalues h']
    refine ⟨rfl, rfl, ?_⟩
    have hkept := conserves_entries hes hr
    rw [editedEntries, List.map_map] at hkept
    rw [hentries, List.map_map]
    exact hkept
  refine ⟨hread, fun hline => ?_, ?_⟩
  · rw [htuple] at hline
    have hline' := newline_notMem_editedEntries hes hr hline
    obtain ⟨hsections', hoptions'⟩ :=
      (oneLine_iff hline').mpr ((oneLine_iff (P := parsed.head) hline).mp ⟨hsections, hoptions⟩)
    have hend : parsed.head.length + (joinEntries (editedEntries replacements es)).length <
        tupleEnd parsed.head
          (joinEntries (editedEntries replacements es) ++ .ofChar ')' :: S) := by
      rw [tupleEnd_oneLine hline']
      omega
    rw [hrender, parseIni_append hhead]
    exact ⟨_, parseTuple_joinEntries hes' hnil' rfl hsections' hoptions' hend⟩
  · exact render_nil_eq h

/-- A value with a quotation mark and parentheses, in the place of a plain one. -/
theorem render_conserves_hostile :
    ∃ parsed parsed', parseIni (str
        "[/Script/Pal.PalGameWorldSettings]\nOptionSettings=(ExpRate=1,ServerName=a,Other)\n") =
          .ok parsed ∧
      parseIni (parsed.render [(str "ServerName", str "\"x\\\"),(\"")]) = .ok parsed' ∧
      Conserves [(str "ServerName", str "\"x\\\"),(\"")] parsed parsed' := by
  obtain ⟨parsed, hread, hchecks⟩ := exists_ok (x := parseIni (str
      "[/Script/Pal.PalGameWorldSettings]\nOptionSettings=(ExpRate=1,ServerName=a,Other)\n"))
    (p := fun parsed =>
      decide ((parsed.entries.filter fun entry => entry.key = some (str "ServerName")).length = 1) &&
        decide (newline ∉ parsed.tuple)) (by decide +kernel)
  rw [Bool.and_eq_true, decide_eq_true_eq, decide_eq_true_eq] at hchecks
  have hedit : ∀ r ∈ [(str "ServerName", str "\"x\\\"),(\"")], IsEdit parsed r.1 r.2 := by
    intro r hr
    obtain rfl := List.mem_singleton.mp hr
    obtain ⟨d, hd, hser⟩ := exists_some (x := settingDefinition (str "ServerName"))
      (p := fun d => serializeSettingValue d (str "x\"),(") = .ok (str "\"x\\\"),(\""))
      (by decide +kernel)
    exact ⟨hchecks.1, d, _, hd, of_decide_eq_true hser⟩
  obtain ⟨hconserves, haccepted, -⟩ := render_conserves hread hedit
  obtain ⟨parsed', hparsed'⟩ := haccepted hchecks.2
  exact ⟨parsed, parsed', hread, hparsed', hconserves parsed' hparsed'⟩

end Conserves

end PalworldManager
