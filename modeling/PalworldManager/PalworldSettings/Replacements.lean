/-
# What a form replaces

`save` is given the texts of a form.  A field that may be edited is shown as it is read,
and its text is replaced when what the form gives is read as another value.  With
something replaced the file is another one (`render_ne`), and it can be encoded unless a
string is given a value with a lone surrogate (`isEncodable_render_iff`).
-/

import PalworldManager.PalworldSettings.Edits
import PalworldManager.PalworldSettings.Service

namespace PalworldManager

open Text

section Fields

variable {stored : StoredSettings} {inspected : InspectedSettings} {field : SettingFieldView}
  {d : SettingDefinition} {raw v : Str}

/-- A definition is found by its key. -/
theorem settingDefinition_key (hd : d ∈ settingDefinitions) : settingDefinition d.key = some d := by
  have hall : (settingDefinitions.all fun d => settingDefinition d.key = some d) = true := by
    simp (disch := rfl) only [settingDefinition, settingDefinitions, definition, str_eq]
    decide +kernel
  exact of_decide_eq_true (List.all_eq_true.mp hall d hd)

/-- A field that may be edited has one entry, and shows what is read of its value. -/
structure IsShown (parsed : ParsedIni) (field : SettingFieldView) : Prop where
  definition : field.definition ∈ settingDefinitions
  value : ∃ entry f v, parsed.entriesOf field.definition.key = [entry] ∧ entry.field = some f ∧
    parseSettingValue field.definition f.value = .ok v ∧ field.value = some v

/-- What is editable is shown. -/
theorem fieldView_editable {entries : List IniEntry} (h : (fieldView d entries).editable = true) :
    (fieldView d entries).definition = d ∧ ∃ entry f v, entries = [entry] ∧
      entry.field = some f ∧ parseSettingValue d f.value = .ok v ∧
      (fieldView d entries).value = some v := by
  rcases entries with _ | ⟨entry, _ | ⟨entry', entries⟩⟩
  · cases h
  · simp only [fieldView] at h ⊢
    split_ifs at h ⊢ with hsensitive hreadOnly
    · cases h
    · cases h
    · cases hf : entry.field with
      | none => simp [hf, preservedField] at h
      | some f =>
        cases hv : parseSettingValue d f.value with
        | error e => simp [hf, hv, preservedField] at h
        | ok v =>
          simp only [hv]
          exact ⟨trivial, entry, f, v, rfl, hf, hv, rfl⟩
  · cases h

/-- **What is inspected** is the file as it was read, and shows its editable fields. -/
theorem inspect_eq_ok (h : inspect stored = .ok inspected) :
    parseIni stored.content = .ok inspected.parsed ∧ inspected.snapshot.version = stored.version ∧
      ∀ field ∈ inspected.snapshot.editableFields, IsShown inspected.parsed field := by
  rw [inspect] at h
  cases hparse : parseIni stored.content with
  | error e => simp [hparse] at h
  | ok parsed =>
    simp only [hparse] at h
    obtain rfl := Except.ok.inj h
    refine ⟨rfl, rfl, fun field hfield => ?_⟩
    obtain ⟨hmem, heditable⟩ := List.mem_filter.mp hfield
    obtain ⟨⟨category, fields⟩, hcategory, hmem⟩ := List.mem_flatMap.mp hmem
    obtain ⟨category', -, hfields⟩ := List.mem_filterMap.mp hcategory
    split_ifs at hfields
    obtain ⟨rfl, rfl⟩ : category' = category ∧ parsed.fieldsOf category' = fields := by
      simpa using hfields
    obtain ⟨d, hd, hview⟩ := List.mem_filterMap.mp hmem
    rw [ParsedIni.fieldOf] at hview
    split_ifs at hview
    obtain rfl : fieldView d (parsed.entriesOf d.key) = field := by simpa using hview
    obtain ⟨hdef, entry, f, v, hentries, hf, hv, hvalue⟩ := fieldView_editable heditable
    refine ⟨by rw [hdef]; exact (List.mem_filter.mp hd).1, entry, f, v, ?_, hf, ?_, hvalue⟩
    · rw [hdef, hentries]
    · rw [hdef, hv]

/-- A text that is read again as it is. -/
structure IsPlain (v : Str) : Prop where
  strip : Str.strip v = v
  unquoted : v.head? ≠ some quotation

/-- What is stripped is no longer. -/
theorem length_strip_le (v : Str) : (Str.strip v).length ≤ v.length :=
  ((List.rdropWhile_prefix _ _).sublist.trans (List.dropWhile_suffix _).sublist).length_le

/-- A text that is read again as it is, as `_parse_string` reads. -/
theorem parseString_self : parseString v = .ok v ↔ IsPlain v := by
  constructor
  · intro h
    rw [parseString] at h
    split_ifs at h with hquoted
    · cases hloads : jsonLoads (Str.strip v) with
      | none => simp [hloads] at h
      | some w =>
        obtain rfl : w = v := by simpa [hloads] using h
        have hlt := length_jsonLoads hloads
        have hle := length_strip_le w
        omega
    · have hstrip : Str.strip v = v := by simpa using h
      exact ⟨hstrip, by rwa [hstrip] at hquoted⟩
  · intro h
    exact parseString_of_strip h.strip h.unquoted

/-- **What is shown is read again as it is**, but for some strings. -/
theorem parseSettingValue_self (hd : d ∈ settingDefinitions)
    (h : parseSettingValue d raw = .ok v) :
    parseSettingValue d v = .ok v ↔ (d.kind = .string → IsPlain v) := by
  cases hkind : d.kind with
  | boolean =>
    obtain ⟨-, hread⟩ := parseSettingValue_boolean hkind h
    simp [hread]
  | integer =>
    obtain ⟨rfl, -⟩ := parseSettingValue_number (.inl hkind) h
    rw [parseSettingValue_congr (.inr (.inl hkind)) (Str.strip_strip raw), h]
    simp
  | number =>
    obtain ⟨rfl, -⟩ := parseSettingValue_number (.inr hkind) h
    rw [parseSettingValue_congr (.inr (.inr hkind)) (Str.strip_strip raw), h]
    simp
  | enum =>
    simp only [parseSettingValue, hkind] at h ⊢
    obtain ⟨value, -, hoption⟩ := except_bind_eq_ok.mp h
    split_ifs at hoption with hmem
    · obtain rfl : value = v := by simpa [Pure.pure, Except.pure] using hoption
      obtain ⟨-, hread⟩ := options_read hd hmem
      rw [hread]
      simp only [reduceCtorEq, false_implies, iff_true]
      exact if_pos hmem
  | string =>
    simp only [parseSettingValue, hkind] at h ⊢
    obtain ⟨value, -, hchecks⟩ := except_bind_eq_ok.mp h
    have hvalue : value = v := by
      split_ifs at hchecks
      simpa [Pure.pure, Except.pure] using hchecks
    subst hvalue
    rw [true_implies, ← parseString_self]
    constructor
    · intro h'
      obtain ⟨w, hw, hchecks'⟩ := except_bind_eq_ok.mp h'
      have hw' : w = value := by
        split_ifs at hchecks'
        simpa [Pure.pure, Except.pure] using hchecks'
      rw [hw, hw']
    · intro h'
      rw [h']
      exact hchecks
  | readOnly => simp [parseSettingValue, hkind] at h
  | sensitive => simp [parseSettingValue, hkind] at h

end Fields

section Replacements

variable {stored : StoredSettings} {inspected : InspectedSettings}
  {fields : List SettingFieldView} {updates replacements : List (Str × Str)}

/-- The text of a form for a field. -/
def textOf (updates : List (Str × Str)) (field : SettingFieldView) : Str :=
  (updates.lookup field.definition.key).getD []

/-- A replacement of a field whose text is read as another value. -/
structure IsReplacement (updates : List (Str × Str)) (field : SettingFieldView)
    (r : Str × Str) : Prop where
  key : r.1 = field.definition.key
  value : ∃ submitted, parseSettingValue field.definition (textOf updates field) = .ok submitted ∧
    some submitted ≠ field.value
  serialized : serializeSettingValue field.definition (textOf updates field) = .ok r.2

/-- **What is collected are replacements**, each of a field. -/
theorem collectReplacements_eq_ok (h : collectReplacements updates fields = .ok replacements) :
    ∀ r ∈ replacements, ∃ field ∈ fields, IsReplacement updates field r := by
  induction fields generalizing replacements with
  | nil =>
    obtain rfl : [] = replacements := by simpa [collectReplacements] using h
    simp
  | cons field fields ih =>
    have hlater {rs : List (Str × Str)} (hrs : collectReplacements updates fields = .ok rs) :
        ∀ r ∈ rs, ∃ field' ∈ field :: fields, IsReplacement updates field' r := by
      intro r hr
      obtain ⟨field', hfield', h'⟩ := ih hrs r hr
      exact ⟨field', List.mem_cons_of_mem _ hfield', h'⟩
    simp only [collectReplacements] at h
    obtain ⟨submitted, hsubmitted, h⟩ := except_bind_eq_ok.mp h
    split_ifs at h with hvalue
    · obtain ⟨serialized, hserialized, h⟩ := except_bind_eq_ok.mp h
      obtain ⟨rs, hrs, h⟩ := except_bind_eq_ok.mp h
      obtain rfl : (field.definition.key, serialized) :: rs = replacements := by
        simpa [Pure.pure, Except.pure] using h
      intro r hr
      rcases List.mem_cons.mp hr with rfl | hr
      · exact ⟨field, List.mem_cons_self, rfl, ⟨submitted, hsubmitted, hvalue⟩, hserialized⟩
      · exact hlater hrs r hr
    · exact hlater h

/-- A field whose text is read as another value is replaced. -/
theorem exists_replacement (h : collectReplacements updates fields = .ok replacements)
    {field : SettingFieldView} (hfield : field ∈ fields) {v : Str}
    (hv : parseSettingValue field.definition (textOf updates field) = .ok v)
    (hvalue : some v ≠ field.value) : ∃ r ∈ replacements, IsReplacement updates field r := by
  induction fields generalizing replacements with
  | nil => cases hfield
  | cons field' fields ih =>
    simp only [collectReplacements] at h
    obtain ⟨submitted, hsubmitted, h⟩ := except_bind_eq_ok.mp h
    split_ifs at h with hother
    · obtain ⟨serialized, hserialized, h⟩ := except_bind_eq_ok.mp h
      obtain ⟨rs, hrs, h⟩ := except_bind_eq_ok.mp h
      obtain rfl : (field'.definition.key, serialized) :: rs = replacements := by
        simpa [Pure.pure, Except.pure] using h
      rcases List.mem_cons.mp hfield with rfl | hfield
      · exact ⟨_, List.mem_cons_self, rfl, ⟨v, hv, hvalue⟩, hserialized⟩
      · obtain ⟨r, hr, h'⟩ := ih hrs hfield
        exact ⟨r, List.mem_cons_of_mem _ hr, h'⟩
    · rcases List.mem_cons.mp hfield with rfl | hfield
      · obtain rfl : v = submitted := Except.ok.inj (hv.symm.trans hsubmitted)
        exact absurd hvalue hother
      · exact ih h hfield

/-- Nothing is replaced when every text is read as the value that is shown. -/
theorem collectReplacements_eq_nil : collectReplacements updates fields = .ok [] ↔
    ∀ field ∈ fields, ∃ v, parseSettingValue field.definition (textOf updates field) = .ok v ∧
      field.value = some v := by
  induction fields with
  | nil => simp [collectReplacements]
  | cons field fields ih =>
    rw [List.forall_mem_cons, ← ih]
    simp only [collectReplacements]
    constructor
    · intro h
      obtain ⟨submitted, hsubmitted, h⟩ := except_bind_eq_ok.mp h
      split_ifs at h with hvalue
      · obtain ⟨serialized, hserialized, h⟩ := except_bind_eq_ok.mp h
        obtain ⟨rs, hrs, h⟩ := except_bind_eq_ok.mp h
        simp [Pure.pure, Except.pure] at h
      · exact ⟨⟨submitted, hsubmitted, (not_not.mp hvalue).symm⟩, h⟩
    · rintro ⟨⟨v, hv, hvalue⟩, h⟩
      refine except_bind_eq_ok.mpr ⟨v, hv, ?_⟩
      rw [if_neg (not_not.mpr hvalue.symm)]
      exact h

/-- What `save` replaces are edits. -/
theorem isEdit_replacements (hinspect : inspect stored = .ok inspected)
    (h : collectReplacements updates inspected.snapshot.editableFields = .ok replacements) :
    ∀ r ∈ replacements, IsEdit inspected.parsed r.1 r.2 := by
  intro r hr
  obtain ⟨field, hfield, hkey, -, hserialized⟩ := collectReplacements_eq_ok h r hr
  obtain ⟨hdef, entry, f, v, hentries, -⟩ := (inspect_eq_ok hinspect).2.2 field hfield
  refine ⟨?_, field.definition, _, ?_, hserialized⟩
  · rw [hkey]
    exact congrArg List.length hentries
  · rw [hkey]
    exact settingDefinition_key hdef

/-- **A file with something replaced is another file.** -/
theorem render_ne {parsed' : ParsedIni} (hinspect : inspect stored = .ok inspected)
    (h : collectReplacements updates inspected.snapshot.editableFields = .ok replacements)
    (hne : replacements ≠ [])
    (hrendered : parseIni (inspected.parsed.render replacements) = .ok parsed') :
    inspected.parsed.render replacements ≠ stored.content := by
  intro hsame
  obtain ⟨hparse, -, hshown⟩ := inspect_eq_ok hinspect
  obtain ⟨⟨key, serialized⟩, rs, rfl⟩ := List.exists_cons_of_ne_nil hne
  have hconserves := (render_conserves hparse (isEdit_replacements hinspect h)).1 _ hrendered
  obtain rfl : inspected.parsed = parsed' := by
    rw [hsame, hparse] at hrendered
    exact Except.ok.inj hrendered
  obtain ⟨field, hfield, rfl, ⟨submitted, hsubmitted, hvalue⟩, hserialized⟩ :=
    collectReplacements_eq_ok h _ List.mem_cons_self
  obtain ⟨hdef, entry, f, v, hentries, hf, hv, hshow⟩ := hshown field hfield
  have hmem : entry ∈ inspected.parsed.entriesOf field.definition.key := by
    rw [hentries]
    exact List.mem_singleton.mpr rfl
  obtain ⟨hentry, hkey⟩ := List.mem_filter.mp hmem
  have hkept := List.forall₂_same.mp hconserves.entries entry hentry
  obtain ⟨f', hf', -, hread⟩ := hkept.replaced field.definition.key serialized
    (of_decide_eq_true hkey) (List.lookup_cons_self ..)
  obtain rfl : f = f' := Option.some.inj (hf.symm.trans hf')
  have hsame' := hread field.definition _ (settingDefinition_key hdef) hserialized
  rw [hv, hsubmitted] at hsame'
  exact hvalue (by rw [hshow, Except.ok.inj hsame'])

end Replacements

section Encodable

variable {stored : StoredSettings} {inspected : InspectedSettings} {parsed : ParsedIni}
  {fields : List SettingFieldView} {updates replacements : List (Str × Str)} {content : Str}
  {entry : IniEntry} {field : IniValue}

/-- An edited entry is as encodable as the text that replaces its value. -/
theorem isEncodable_replaceValue (h : IsEncodable entry.raw) (v : Str) :
    IsEncodable (entry.replaceValue field v) ↔ IsEncodable v := by
  have hdrop : IsEncodable (entry.raw.drop field.valueEnd) :=
    fun c hc => h c (List.mem_of_mem_drop hc)
  rw [IniEntry.replaceValue, isEncodable_append, isEncodable_append, and_iff_left hdrop]
  exact and_iff_right (h.take _)

/-- A file of entries is as encodable as what it is made of. -/
theorem isEncodable_joinEntries {es : List Str} :
    IsEncodable (joinEntries es) ↔ ∀ e ∈ es, IsEncodable e :=
  isEncodable_intercalate (isEncodable_str ",")

/-- What is rendered can be encoded if what replaces the values can be. -/
theorem isEncodable_render (h : parseIni content = .ok parsed) (hcontent : IsEncodable content) :
    IsEncodable (parsed.render replacements) ↔
      ∀ entry ∈ parsed.entries, IsEncodable (entry.render replacements) := by
  obtain ⟨_, es, S, -, rfl, -, -, hentries, hsuffix, -⟩ := exists_entries h
  obtain ⟨hhead, hrest⟩ := isEncodable_append.mp hcontent
  have hsuffix' : IsEncodable parsed.suffix := by
    rw [hsuffix]
    exact (isEncodable_append.mp hrest).2
  rw [render_eq_append hentries, isEncodable_append, isEncodable_append, and_iff_left hsuffix',
    and_iff_right hhead, isEncodable_joinEntries, editedEntries, hentries, List.forall_mem_map,
    List.forall_mem_map]

/-- The entries of a file that can be encoded can be encoded. -/
theorem isEncodable_raw (h : parseIni content = .ok parsed) (hcontent : IsEncodable content) :
    ∀ entry ∈ parsed.entries, IsEncodable entry.raw := by
  intro entry hentry
  have hrender : IsEncodable (parsed.render []) := by rwa [render_nil_eq h]
  have hentries := (isEncodable_render h hcontent).mp hrender entry hentry
  rwa [render_nil] at hentries

/-- The replacement that is looked up is the one of the field. -/
theorem lookup_collected (hdefined : ∀ field ∈ fields, field.definition ∈ settingDefinitions)
    (h : collectReplacements updates fields = .ok replacements) {r : Str × Str}
    (hr : r ∈ replacements) : replacements.lookup r.1 = some r.2 := by
  obtain ⟨v, hv⟩ : ∃ v, replacements.lookup r.1 = some v := by
    cases hlookup : replacements.lookup r.1 with
    | none => simpa using List.lookup_eq_none_iff.mp hlookup r hr
    | some v => exact ⟨v, rfl⟩
  obtain ⟨field, hfield, hkey, -, hserialized⟩ := collectReplacements_eq_ok h r hr
  obtain ⟨field', hfield', hkey', -, hserialized'⟩ :=
    collectReplacements_eq_ok h _ (mem_of_lookup hv)
  -- two fields of one key have one definition, and one text
  have hsame : field'.definition = field.definition := by
    have hdefinition := settingDefinition_key (hdefined field hfield)
    rw [← hkey, show r.1 = field'.definition.key from hkey',
      settingDefinition_key (hdefined field' hfield')] at hdefinition
    exact Option.some.inj hdefinition
  rw [textOf, hsame] at hserialized'
  rw [hv, ← Except.ok.inj (hserialized'.symm.trans hserialized)]

/-- A form gives a string of the file, as it is shown, another value that cannot be encoded. -/
def GivesUnencodable (updates : List (Str × Str)) (fields : List SettingFieldView) : Prop :=
  ∃ field ∈ fields, field.definition.kind = .string ∧
    ∃ v, parseSettingValue field.definition (textOf updates field) = .ok v ∧
      field.value ≠ some v ∧ ¬IsEncodable v

/-- A form gives such a value if and only if one of its replacements cannot be encoded. -/
theorem givesUnencodable_iff (hdefined : ∀ field ∈ fields, field.definition ∈ settingDefinitions)
    (h : collectReplacements updates fields = .ok replacements) :
    GivesUnencodable updates fields ↔ ∃ r ∈ replacements, ¬IsEncodable r.2 := by
  constructor
  · rintro ⟨field, hfield, hkind, v, hv, hvalue, hv'⟩
    obtain ⟨r, hr, -, -, hserialized⟩ := exists_replacement h hfield hv (Ne.symm hvalue)
    refine ⟨r, hr, fun hencodable => hv' ?_⟩
    exact (isEncodable_serializeSettingValue (hdefined field hfield) hv hserialized).mp
      hencodable hkind
  · rintro ⟨r, hr, hr'⟩
    obtain ⟨field, hfield, -, ⟨v, hv, hvalue⟩, hserialized⟩ := collectReplacements_eq_ok h r hr
    rw [isEncodable_serializeSettingValue (hdefined field hfield) hv hserialized,
      Classical.not_imp] at hr'
    exact ⟨field, hfield, hr'.1, v, hv, Ne.symm hvalue, hr'.2⟩

/-- **What `save` writes can be encoded** unless the form gives a string a value with a lone
surrogate. -/
theorem isEncodable_render_iff (hinspect : inspect stored = .ok inspected)
    (h : collectReplacements updates inspected.snapshot.editableFields = .ok replacements)
    (hcontent : IsEncodable stored.content) :
    IsEncodable (inspected.parsed.render replacements) ↔
      ¬GivesUnencodable updates inspected.snapshot.editableFields := by
  obtain ⟨hparse, -, hshown⟩ := inspect_eq_ok hinspect
  have hdefined : ∀ field ∈ inspected.snapshot.editableFields,
      field.definition ∈ settingDefinitions := fun field hfield => (hshown field hfield).definition
  have hraw := isEncodable_raw hparse hcontent
  rw [givesUnencodable_iff hdefined h, isEncodable_render hparse hcontent]
  simp only [not_exists, not_and, not_not]
  constructor
  · intro hrender r hr
    obtain ⟨field, hfield, hkey, -⟩ := collectReplacements_eq_ok h r hr
    obtain ⟨-, entry, f, -, hentries, hf, -⟩ := hshown field hfield
    -- the one entry of the field is rendered with the replacement
    have hmem : entry ∈ inspected.parsed.entriesOf field.definition.key := by
      rw [hentries]
      exact List.mem_singleton.mpr rfl
    obtain ⟨hentry, hentrykey⟩ := List.mem_filter.mp hmem
    have hfkey : f.key = r.1 := by
      rw [IniEntry.key, hf] at hentrykey
      simpa [hkey] using hentrykey
    have hlookup := lookup_collected hdefined h hr
    rw [← hfkey] at hlookup
    have hrendered := hrender entry hentry
    simp only [IniEntry.render, hf, hlookup] at hrendered
    exact (isEncodable_replaceValue (hraw entry hentry) r.2).mp hrendered
  · intro hr entry hentry
    rcases render_cases replacements entry with ⟨hsame, -⟩ | ⟨f, v, -, hlookup, hreplaced⟩
    · rw [hsame]
      exact hraw entry hentry
    · rw [hreplaced]
      exact (isEncodable_replaceValue (hraw entry hentry) v).mpr (hr _ (mem_of_lookup hlookup))

end Encodable

end PalworldManager
