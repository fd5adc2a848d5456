/-
# Merging GameUserSettings.ini

`merge_generic_ini` (`restores/service.py`): the lines of the backup, with the secrets of
the current file.  A text here is what UTF-8 decodes to, so that it has no surrogates.
-/

import PalworldManager.Restores.Merge

namespace PalworldManager

open Text

/-- `MAX_GENERIC_CONFIG_BYTES`. -/
def maxGenericConfigBytes : ℕ := 1024 * 1024

/-- `len(t.encode("utf-8"))`. -/
def utf8Length (t : List Char) : ℕ := (t.map Char.utf8Size).sum

/-- A section and a key, both folded. -/
abbrev SecretId := List Char × List Char

/-- `stripped.startswith("[") and stripped.endswith("]")`. -/
def isSectionLine (stripped : List Char) : Bool :=
  stripped.head? == some '[' && stripped.getLast? == some ']'

section Model

variable [Unicode]

/-- The key of a line within a section. -/
def secretId (sect key : List Char) : SecretId :=
  (Unicode.casefold sect, Unicode.casefold (strip key))

/-- The loop of `_generic_sensitive_values`. -/
def sensitiveValuesFrom (result : List (SecretId × List Char)) (sect : List Char) :
    List (List Char) → Except RestoreValidationError (List (SecretId × List Char))
  | [] => .ok result
  | line :: lines =>
      if isSectionLine (strip line) then sensitiveValuesFrom result (strip line) lines
      else match genericSecret line with
        | some (key, value) =>
            if secretId sect key ∈ result.map Prod.fst ∨ strip value = [] then
              .error ⟨"CURRENT_RELATED_SETTINGS_INVALID",
                "A configuração relacionada atual é inválida."⟩
            else sensitiveValuesFrom (result ++ [(secretId sect key, value)]) sect lines
        | none => sensitiveValuesFrom result sect lines

/-- `_generic_sensitive_values`. -/
def genericSensitiveValues (content : List Char) :
    Except RestoreValidationError (List (SecretId × List Char)) :=
  if maxGenericConfigBytes < utf8Length content then
    .error ⟨"CURRENT_RELATED_SETTINGS_INVALID", "A configuração relacionada é inválida."⟩
  else sensitiveValuesFrom [] [] ((splitLines content).map Line.text)

/-- The loop of `merge_generic_ini`: what it appends to `result`. -/
def mergeGenericFrom (currentValues : List (SecretId × List Char)) (seen : List SecretId)
    (sect : List Char) : List (List Char) → Except RestoreValidationError (List (List Char))
  | [] => .ok []
  | line :: lines =>
      if isSectionLine (strip line) then
        (mergeGenericFrom currentValues seen (strip line) lines).map (line :: ·)
      else match genericSecret line with
        | some (key, _) =>
            if secretId sect key ∈ seen then
              .error ⟨"RELATED_SETTINGS_MERGE_UNSAFE",
                "A configuração relacionada não pode ser combinada com segurança."⟩
            else match currentValues.lookup (secretId sect key) with
              | none => .error ⟨"RELATED_SETTINGS_MERGE_UNSAFE",
                  "A configuração relacionada não pode ser combinada com segurança."⟩
              | some value =>
                  (mergeGenericFrom currentValues (secretId sect key :: seen) sect lines).map
                    ((key ++ '=' :: value ++ keptEnding line) :: ·)
        | none => (mergeGenericFrom currentValues seen sect lines).map (line :: ·)

/-- `merge_generic_ini`. -/
def mergeGenericIni (backupContent currentContent : List Char) :
    Except RestoreValidationError (List Char) := do
  let currentValues ← genericSensitiveValues currentContent
  let result ← mergeGenericFrom currentValues [] [] ((splitLines backupContent).map Line.full)
  if maxGenericConfigBytes < utf8Length result.flatten then
    .error ⟨"RELATED_SETTINGS_MERGE_UNSAFE", "A configuração relacionada é inválida."⟩
  else pure result.flatten

end Model

/-- What is kept of the end of a line. -/
def keptOf (l : Line) : List Char :=
  if l.ending = ['\r', '\n'] ∨ l.ending = ['\n'] then l.ending else []

/-- A line, redacted. -/
def redactedLine (l : Line) : Line :=
  match genericSecret l.text with
  | some (key, _) => ⟨key ++ ['=', '"', '"'], keptOf l⟩
  | none => l

section LineFacts

variable {l : Line} {ls : List Line} {t u k v : List Char}

/-- What ends a line is white space. -/
theorem isSpace_of_isLineBreak {c : Char} (h : isLineBreak c = true) : isSpace c = true := by
  rw [isLineBreak, decide_eq_true_eq] at h
  simp only [List.mem_cons, List.not_mem_nil, or_false] at h
  rw [isSpace]
  rcases h with h | h | h | h | h | h | h | h | h | h <;> rw [h] <;> decide

/-- What ends a line breaks lines. -/
theorem ending_isLineBreak (h : IsLine l) : ∀ c ∈ l.ending, isLineBreak c = true := by
  rcases h.ending with h | h | ⟨c, hc, h⟩
  · rw [h]
    exact nofun
  · rw [h]
    exact List.all_eq_true.mp (by decide)
  · rw [h]
    simpa using hc

/-- White space after a text goes when the text is stripped. -/
theorem strip_append (hu : ∀ c ∈ u, isSpace c = true) (t : List Char) : strip (t ++ u) = strip t := by
  have hdrop {u : List Char} (hu : ∀ c ∈ u, isSpace c = true) (t : List Char) :
      (u ++ t).dropWhile isSpace = t.dropWhile isSpace := List.dropWhile_append_of_pos hu
  rw [strip, strip]
  by_cases ht : ∀ c ∈ t, isSpace c = true
  · have hall : ∀ c ∈ t ++ u, isSpace c = true := fun c hc =>
      (List.mem_append.mp hc).elim (ht c) (hu c)
    rw [List.dropWhile_eq_nil_iff.mpr hall, List.dropWhile_eq_nil_iff.mpr ht]
  · have hne : t.dropWhile isSpace ≠ [] := fun hnil => ht (List.dropWhile_eq_nil_iff.mp hnil)
    have hreverse : ∀ c ∈ u.reverse, isSpace c = true := fun c hc => hu c (List.mem_reverse.mp hc)
    rw [List.dropWhile_append, if_neg (by simpa using hne), List.reverse_append, hdrop hreverse]

/-- Stripped, a line is its text. -/
theorem strip_full (h : IsLine l) : strip l.full = strip l.text :=
  strip_append (fun c hc => isSpace_of_isLineBreak (ending_isLineBreak h c hc)) _

/-- What ends with no white space ends so once it is stripped. -/
theorem getLast_strip {c : Char} (hc : isSpace c = false) (t : List Char) :
    (strip (t ++ [c])).getLast? = some c := by
  obtain ⟨u, hu⟩ : ∃ u, (t ++ [c]).dropWhile isSpace = u ++ [c] := by
    induction t with
    | nil => exact ⟨[], List.dropWhile_cons_of_neg (by simp [hc])⟩
    | cons d t ih =>
      rw [List.cons_append, List.dropWhile_cons]
      split_ifs
      · exact ih
      · exact ⟨d :: t, rfl⟩
  rw [strip, hu, List.reverse_append, List.reverse_singleton, List.singleton_append,
    List.dropWhile_cons_of_neg (by simp [hc])]
  simp

/-- The key is what stands before the first equal sign, and it is sensitive. -/
theorem genericSecret_eq_some : genericSecret t = some (k, v) ↔
    t = k ++ '=' :: v ∧ '=' ∉ k ∧ sensitiveKeyPattern.search (strip k) = true := by
  rw [genericSecret, Option.filter_eq_some_iff, partition_eq_some, and_assoc]

/-- What follows a line without an equal sign goes to the value. -/
theorem genericSecret_append (hu : '=' ∉ u) (t : List Char) :
    genericSecret (t ++ u) = (genericSecret t).map fun r => (r.1, r.2 ++ u) := by
  rw [genericSecret, genericSecret, partition_append hu]
  cases partition '=' t with
  | none => rfl
  | some r =>
    rw [Option.map_some, Option.filter_some, Option.filter_some]
    split_ifs <;> rfl

/-- The secret of a line with its ending: the ending goes to the value. -/
theorem genericSecret_full (h : IsLine l) :
    genericSecret l.full = (genericSecret l.text).map fun r => (r.1, r.2 ++ l.ending) :=
  genericSecret_append (fun hmem => absurd (ending_isLineBreak h _ hmem) (by decide)) _

/-- A sensitive key is not empty. -/
theorem ne_nil_of_search (h : sensitiveKeyPattern.search (strip k) = true) : k ≠ [] := by
  rintro rfl
  exact absurd h (by decide)

/-- The `ending` of a line is a line feed, with or without its carriage return, or nothing. -/
theorem keptEnding_full (h : IsLine l) : keptEnding l.full = keptOf l := by
  have hlast {w : List Char} {c : Char} (hc : isLineBreak c = true) : ¬w ++ [c] <:+ l.text :=
    fun hsuffix => by
      have hmem := h.text c (hsuffix.subset (by simp))
      rw [hc] at hmem
      cases hmem
  have hfeed : isLineBreak '\n' = true := by decide
  have hreturn : isLineBreak '\r' = true := by decide
  rw [keptEnding, keptOf, Line.full]
  rcases h.ending with he | he | ⟨c, hc, he⟩
  · have hcrlf : ¬['\r', '\n'] <:+ l.text := hlast (w := ['\r']) hfeed
    have hlf : ¬['\n'] <:+ l.text := hlast (w := []) hfeed
    rw [he, List.append_nil, if_neg hcrlf, if_neg hlf]
    rfl
  · rw [he, if_pos (List.suffix_append ..)]
    rfl
  · have hcrlf : ¬['\r', '\n'] <:+ l.text ++ [c] := by
      rintro ⟨w, hw⟩
      have hw' : w ++ ['\r'] ++ ['\n'] = l.text ++ [c] := by rw [← hw]; simp
      exact hlast hreturn ⟨[], (List.append_inj' hw' rfl).1⟩
    rw [he, if_neg hcrlf]
    by_cases hn : c = '\n'
    · subst hn
      rw [if_pos (List.suffix_append ..)]
      rfl
    · have hlf : ¬['\n'] <:+ l.text ++ [c] := by
        rintro ⟨w, hw⟩
        exact hn (by simpa using (List.append_inj' hw rfl).2.symm)
      rw [if_neg hlf, if_neg]
      simp [hn]

/-- A line keeps its ending or loses it. -/
theorem kept_cases (l : Line) : keptOf l = l.ending ∨ keptOf l = [] := by
  rw [keptOf]
  split_ifs
  · exact .inl rfl
  · exact .inr rfl

/-- **A redacted file** is its lines, redacted. -/
theorem redactGenericIni_eq (c : List Char) :
    redactGenericIni c = joinLines ((splitLines c).map redactedLine) := by
  rw [redactGenericIni, joinLines, List.map_map]
  congr 1
  refine List.map_congr_left fun l hl => ?_
  have hline := isLine_splitLines c l hl
  rw [redactGenericLine, genericSecret_full hline, Function.comp_apply, redactedLine,
    keptEnding_full hline]
  cases genericSecret l.text with
  | none => rfl
  | some r => rfl

end LineFacts

section Lookup

variable {values : List (SecretId × List Char)} {id : SecretId} {v : List Char}

/-- Under different keys, what is looked up is what is listed. -/
theorem lookup_eq_some_iff (h : (values.map Prod.fst).Nodup) :
    values.lookup id = some v ↔ (id, v) ∈ values := by
  induction values with
  | nil => simp
  | cons e values ih =>
    obtain ⟨k, w⟩ := e
    rw [List.map_cons, List.nodup_cons] at h
    rw [List.lookup_cons, List.mem_cons]
    by_cases hk : id = k
    · subst hk
      have hnot : (id, v) ∉ values := fun hmem => h.1 (List.mem_map.mpr ⟨(id, v), hmem, rfl⟩)
      simp [hnot, eq_comm]
    · have hbeq : (id == k) = false := by simpa using hk
      rw [hbeq, ih h.2]
      simp [hk]

/-- Something is found under the keys that are listed. -/
theorem isSome_lookup_iff : (values.lookup id).isSome = true ↔ id ∈ values.map Prod.fst := by
  rw [List.lookup_isSome_iff, List.mem_map]
  simp

end Lookup

section Merge

variable [Unicode] {values result : List (SecretId × List Char)} {seen : List SecretId}
  {sect backup current merged content : List Char} {ls : List Line} {out : List (List Char)}
  {id : SecretId} {v : List Char}

/-- The secrets of some lines, read in their sections. -/
def genericEntries (sect : List Char) : List Line → List (SecretId × List Char)
  | [] => []
  | l :: ls =>
      if isSectionLine (strip l.text) then genericEntries (strip l.text) ls
      else match genericSecret l.text with
        | some (key, value) => (secretId sect key, value) :: genericEntries sect ls
        | none => genericEntries sect ls

/-- The lines of a backup, with the secrets of the current file. -/
def mergedLines (values : List (SecretId × List Char)) (sect : List Char) : List Line → List Line
  | [] => []
  | l :: ls =>
      if isSectionLine (strip l.text) then l :: mergedLines values (strip l.text) ls
      else match genericSecret l.text with
        | some (key, _) =>
            ⟨key ++ '=' :: (values.lookup (secretId sect key)).getD [], keptOf l⟩ ::
              mergedLines values sect ls
        | none => l :: mergedLines values sect ls

/-- The secrets of a text. -/
abbrev genericSecrets (content : List Char) : List (SecretId × List Char) :=
  genericEntries [] (splitLines content)

/-- **What `_generic_sensitive_values` reads**: the secrets, if no key has two and none is
blank. -/
theorem sensitiveValuesFrom_eq_ok (hnodup : (result.map Prod.fst).Nodup) :
    sensitiveValuesFrom result sect (ls.map Line.text) = .ok values ↔
      values = result ++ genericEntries sect ls ∧ (values.map Prod.fst).Nodup ∧
        ∀ e ∈ genericEntries sect ls, strip e.2 ≠ [] := by
  induction ls generalizing result sect with
  | nil =>
    rw [List.map_nil, sensitiveValuesFrom, genericEntries, List.append_nil]
    constructor
    · intro h
      obtain rfl : result = values := by simpa using h
      exact ⟨rfl, hnodup, nofun⟩
    · rintro ⟨rfl, -⟩
      rfl
  | cons l ls ih =>
    rw [List.map_cons, sensitiveValuesFrom, genericEntries]
    by_cases hsection : isSectionLine (strip l.text) = true
    · rw [if_pos hsection, if_pos hsection, ih hnodup]
    · rw [if_neg hsection, if_neg hsection]
      cases genericSecret l.text with
      | none => exact ih hnodup
      | some r =>
        obtain ⟨key, value⟩ := r
        simp only [List.forall_mem_cons]
        split_ifs with hbad
        · refine ⟨nofun, ?_⟩
          rintro ⟨rfl, hall, hvalue, -⟩
          rw [List.map_append, List.nodup_append] at hall
          rcases hbad with hdup | hblank
          · exact absurd rfl (hall.2.2 _ hdup _ List.mem_cons_self)
          · exact absurd hblank hvalue
        · rw [not_or] at hbad
          have hnext : ((result ++ [(secretId sect key, value)]).map Prod.fst).Nodup := by
            rw [List.map_append, List.nodup_append]
            refine ⟨hnodup, by simp, fun a ha b hb hab => hbad.1 ?_⟩
            obtain rfl : b = secretId sect key := by simpa using hb
            exact hab ▸ ha
          rw [ih hnext, List.append_assoc, List.singleton_append]
          simp [hbad.2]

/-- What `_generic_sensitive_values` accepts. -/
structure IsGenericIni (content : List Char) : Prop where
  size : utf8Length content ≤ maxGenericConfigBytes
  unique : ((genericSecrets content).map Prod.fst).Nodup
  values : ∀ e ∈ genericSecrets content, strip e.2 ≠ []

/-- `_generic_sensitive_values` returns the secrets of what it accepts. -/
theorem genericSensitiveValues_eq_ok :
    genericSensitiveValues content = .ok values ↔
      values = genericSecrets content ∧ IsGenericIni content := by
  have hnil : (([] : List (SecretId × List Char)).map Prod.fst).Nodup := List.nodup_nil
  rw [genericSensitiveValues]
  split_ifs with hsize
  · exact ⟨nofun, fun h => absurd h.2.size (Nat.not_le.mpr hsize)⟩
  · rw [sensitiveValuesFrom_eq_ok hnil, List.nil_append]
    constructor
    · rintro ⟨rfl, hunique, hvalues⟩
      exact ⟨rfl, Nat.not_lt.mp hsize, hunique, hvalues⟩
    · rintro ⟨rfl, h⟩
      exact ⟨rfl, h.unique, h.values⟩

/-- **What `merge_generic_ini` appends**: the merged lines, if the secrets of the backup are
secrets of the current file, each once. -/
theorem mergeGenericFrom_eq_ok (hls : ∀ l ∈ ls, IsLine l) :
    mergeGenericFrom values seen sect (ls.map Line.full) = .ok out ↔
      out = (mergedLines values sect ls).map Line.full ∧
        ((genericEntries sect ls).map Prod.fst).Nodup ∧
        (∀ id ∈ (genericEntries sect ls).map Prod.fst, id ∉ seen) ∧
        ∀ id ∈ (genericEntries sect ls).map Prod.fst, id ∈ values.map Prod.fst := by
  induction ls generalizing seen sect out with
  | nil =>
    rw [List.map_nil, mergeGenericFrom, genericEntries, mergedLines]
    constructor
    · intro h
      obtain rfl : [] = out := by simpa using h
      exact ⟨rfl, List.nodup_nil, nofun, nofun⟩
    · rintro ⟨rfl, -⟩
      rfl
  | cons l ls ih =>
    have hline := hls l List.mem_cons_self
    have hrest {seen sect out} := @ih seen sect out fun m hm => hls m (List.mem_cons_of_mem _ hm)
    rw [List.map_cons, mergeGenericFrom, genericEntries, mergedLines, strip_full hline,
      genericSecret_full hline, keptEnding_full hline]
    have hcopy {seen : List SecretId} {sect : List Char} :
        (mergeGenericFrom values seen sect (ls.map Line.full)).map (l.full :: ·) = .ok out ↔
          out = (l :: mergedLines values sect ls).map Line.full ∧
            ((genericEntries sect ls).map Prod.fst).Nodup ∧
            (∀ id ∈ (genericEntries sect ls).map Prod.fst, id ∉ seen) ∧
            ∀ id ∈ (genericEntries sect ls).map Prod.fst, id ∈ values.map Prod.fst := by
      rw [except_map_eq_ok]
      constructor
      · rintro ⟨out', hout', rfl⟩
        obtain ⟨rfl, h⟩ := hrest.mp hout'
        exact ⟨rfl, h⟩
      · rintro ⟨rfl, h⟩
        exact ⟨_, hrest.mpr ⟨rfl, h⟩, rfl⟩
    by_cases hsection : isSectionLine (strip l.text) = true
    · rw [if_pos hsection, if_pos hsection, if_pos hsection]
      exact hcopy
    · rw [if_neg hsection, if_neg hsection, if_neg hsection]
      cases genericSecret l.text with
      | none => exact hcopy
      | some r =>
        obtain ⟨key, value⟩ := r
        simp only [Option.map_some, List.map_cons, List.nodup_cons, List.forall_mem_cons]
        by_cases hseen : secretId sect key ∈ seen
        · rw [if_pos hseen]
          exact ⟨nofun, fun h => absurd hseen h.2.2.1.1⟩
        · rw [if_neg hseen]
          cases hlookup : values.lookup (secretId sect key) with
          | none =>
            refine ⟨nofun, fun h => ?_⟩
            have hsome := isSome_lookup_iff.mpr h.2.2.2.1
            rw [hlookup] at hsome
            cases hsome
          | some v =>
            have hmem := isSome_lookup_iff.mp (Option.isSome_of_eq_some hlookup)
            simp only [except_map_eq_ok, Option.getD_some]
            constructor
            · rintro ⟨out', hout', rfl⟩
              obtain ⟨rfl, hnodup, hfresh, hvalues⟩ := hrest.mp hout'
              refine ⟨?_, ⟨fun hdup => hfresh _ hdup List.mem_cons_self, hnodup⟩,
                ⟨hseen, fun id hid hs => hfresh id hid (List.mem_cons_of_mem _ hs)⟩, hmem, hvalues⟩
              rw [Line.full, List.append_assoc, List.cons_append]
            · rintro ⟨rfl, ⟨hdup, hnodup⟩, ⟨-, hfresh⟩, -, hvalues⟩
              refine ⟨_, hrest.mpr ⟨rfl, hnodup, fun id hid hs => ?_, hvalues⟩, ?_⟩
              · rcases List.mem_cons.mp hs with rfl | hs
                · exact hdup hid
                · exact hfresh id hid hs
              · rw [Line.full]

/-- **What `merge_generic_ini` checks**, and what it returns. -/
theorem mergeGenericIni_eq_ok :
    mergeGenericIni backup current = .ok merged ↔
      IsGenericIni current ∧ ((genericSecrets backup).map Prod.fst).Nodup ∧
        (∀ id ∈ (genericSecrets backup).map Prod.fst, id ∈ (genericSecrets current).map Prod.fst) ∧
        merged = joinLines (mergedLines (genericSecrets current) [] (splitLines backup)) ∧
        utf8Length merged ≤ maxGenericConfigBytes := by
  rw [mergeGenericIni]
  simp only [except_bind_eq_ok, genericSensitiveValues_eq_ok,
    mergeGenericFrom_eq_ok (isLine_splitLines backup)]
  constructor
  · rintro ⟨_, ⟨rfl, hcurrent⟩, _, ⟨rfl, hnodup, -, hvalues⟩, hsize⟩
    split_ifs at hsize with hlarge
    obtain rfl : (((mergedLines (genericSecrets current) [] (splitLines backup)).map
      Line.full).flatten) = merged := by simpa [pure, Except.pure] using hsize
    exact ⟨hcurrent, hnodup, hvalues, rfl, Nat.not_lt.mp hlarge⟩
  · rintro ⟨hcurrent, hnodup, hvalues, rfl, hsize⟩
    refine ⟨_, ⟨rfl, hcurrent⟩, _, ⟨rfl, hnodup, fun _ _ => List.not_mem_nil, hvalues⟩, ?_⟩
    rw [joinLines] at hsize
    rw [if_neg (Nat.not_lt.mpr hsize)]
    rfl

end Merge

end PalworldManager
