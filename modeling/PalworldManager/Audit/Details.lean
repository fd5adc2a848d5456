/-
# Redacted details

`redact_audit_details` (`audit/service.py`): the values of the keys that look sensitive are
replaced, every text is redacted, and what is too deep, too long or too large is left out.

A key is tested after it was redacted itself and cut to its first 100 characters.  So a value is
protected exactly if its key still has a match then (`protectsValues_iff`).
-/

import PalworldManager.Audit.Redaction
import PalworldManager.Text.Decimal
import PalworldManager.Text.Json

namespace PalworldManager

open Text Text.Pattern

section Model

/-- What details are made of.  A mapping has the text of each key, `float` what the encoder
writes, `other` the text of any other object. -/
inductive Detail where
  | mapping (entries : List (Str × Detail))
  | list (items : List Detail)
  | text (value : Str)
  | null
  | bool (value : Bool)
  | int (value : ℤ)
  | float (repr : String)
  | other (printed : Str)

/-- What `json.dumps` and `str.encode` raise: an integer of more than 4300 digits, an object
that is none of JSON, a lone surrogate. -/
inductive DetailError where
  | tooManyDigits
  | notSerializable
  | notEncodable
  deriving Repr, DecidableEq

/-- `OMITTED_DETAILS`. -/
def omittedDetails : Str := str "DETALHES_OMITIDOS_POR_LIMITE"

/-- `MAX_AUDIT_DETAIL_DEPTH`. -/
def maxAuditDetailDepth : ℕ := 6

/-- `MAX_AUDIT_DETAIL_ITEMS`. -/
def maxAuditDetailItems : ℕ := 100

/-- `MAX_AUDIT_DETAIL_TEXT`. -/
def maxAuditDetailText : ℕ := 4000

/-- `MAX_AUDIT_DETAILS_BYTES`. -/
def maxAuditDetailsBytes : ℕ := 16 * 1024

/-- `SENSITIVE_DETAIL_KEY_PATTERN.search`. -/
def isSensitiveDetailKey (key : Str) : Bool := auditWords.search key

variable [Alphanumeric] {sensitive : List Str}

/-- A key as it is tested and stored. -/
def detailKey (arranged : Arranged sensitive) (rawKey : Str) : Str :=
  (redactAuditText arranged rawKey).take 100

/-- `result[key] = value`. -/
def setItem : List (Str × Detail) → Str → Detail → List (Str × Detail)
  | [], key, value => [(key, value)]
  | (other, old) :: rest, key, value =>
    if other = key then (other, value) :: rest else (other, old) :: setItem rest key value

/-- The loop of `_redact_mapping` from an index on. -/
def redactEntries (arranged : Arranged sensitive) (redactNested : Detail → Detail) :
    ℕ → List (Str × Detail) → List (Str × Detail) → List (Str × Detail)
  | _, result, [] => result
  | index, result, (rawKey, nested) :: rest =>
    if maxAuditDetailItems ≤ index then setItem result (str "status") (.text omittedDetails)
    else
      let key := detailKey arranged rawKey
      redactEntries arranged redactNested (index + 1)
        (setItem result key (if isSensitiveDetailKey key then .text protectedValue
          else redactNested nested)) rest

/-- `_redact_value`, so many levels above the deepest one. -/
def redactValue (arranged : Arranged sensitive) : ℕ → Detail → Detail
  | 0, .mapping _ => .mapping [(str "status", .text omittedDetails)]
  | levels + 1, .mapping entries =>
    .mapping (redactEntries arranged (redactValue arranged levels) 0 [] entries)
  | 0, .list _ => .text omittedDetails
  | levels + 1, .list items =>
    .list ((items.take maxAuditDetailItems).map (redactValue arranged levels))
  | _, .text value => .text ((redactAuditText arranged value).take maxAuditDetailText)
  | _, .null => .null
  | _, .bool value => .bool value
  | _, .int value => .int value
  | _, .float repr => .float repr
  | _, .other printed => .text ((redactAuditText arranged printed).take maxAuditDetailText)

/-- `_redact_mapping`, so many levels above the deepest one. -/
def redactMapping (arranged : Arranged sensitive) :
    ℕ → List (Str × Detail) → List (Str × Detail)
  | 0, _ => [(str "status", .text omittedDetails)]
  | levels + 1, entries => redactEntries arranged (redactValue arranged levels) 0 [] entries

/-- `json.dumps` of a mapping, its values written. -/
def writtenMapping (entries : List (Str × Str)) : Str :=
  let sorted := entries.insertionSort fun a b => a.1 ≤ b.1
  str "\x7b" ++ (str ", ").intercalate (sorted.map fun e => jsonDumps e.1 ++ str ": " ++ e.2) ++
    str "\x7d"

mutual

/-- `json.dumps(…, ensure_ascii=False, sort_keys=True)`. -/
def Detail.written : Detail → Except DetailError Str
  | .mapping entries => return writtenMapping (← writtenEntries entries)
  | .list items => return str "[" ++ (str ", ").intercalate (← writtenItems items) ++ str "]"
  | .text value => return jsonDumps value
  | .null => return str "null"
  | .bool value => return str (if value then "true" else "false")
  | .int value =>
    if 10 ^ maxIntDigits ≤ value.natAbs then throw .tooManyDigits else return str (toString value)
  | .float repr => return str repr
  | .other _ => throw .notSerializable

/-- The values of a mapping, each under its key. -/
def Detail.writtenEntries : List (Str × Detail) → Except DetailError (List (Str × Str))
  | [] => return []
  | (key, value) :: rest => do
    let written ← value.written
    return (key, written) :: (← writtenEntries rest)

/-- The items of a list. -/
def Detail.writtenItems : List Detail → Except DetailError (List Str)
  | [] => return []
  | item :: rest => do
    let written ← item.written
    return written :: (← writtenItems rest)

end

/-- `written.encode("utf-8")`. -/
def encodeWritten (written : Str) : Except DetailError ByteArray :=
  match encodeUtf8 written with
  | some encoded => .ok encoded
  | none => .error .notEncodable

/-- `json.dumps(redacted, …).encode("utf-8")`. -/
def encodedDetails (redacted : List (Str × Detail)) : Except DetailError ByteArray := do
  encodeWritten (← (Detail.mapping redacted).written)

/-- `redact_audit_details`. -/
def redactAuditDetails (arranged : Arranged sensitive) :
    Option (List (Str × Detail)) → Except DetailError (Option (List (Str × Detail)))
  | none => return none
  | some details => do
    let redacted := redactMapping arranged maxAuditDetailDepth details
    let encoded ← encodedDetails redacted
    if maxAuditDetailsBytes < encoded.size then
      return some [(str "status", .text omittedDetails)]
    return some redacted

/-- The details are replaced because they are too large. -/
def IsTooLarge (arranged : Arranged sensitive) (details : List (Str × Detail)) : Prop :=
  ∃ encoded, encodedDetails (redactMapping arranged maxAuditDetailDepth details) = .ok encoded ∧
    maxAuditDetailsBytes < encoded.size

example : (Detail.list [.bool true, .int (-12), .mapping [(str "b", .null), (str "a", .text [])]]
    ).written.toOption = some (str "[true, -12, \x7b\"a\": \"\", \"b\": null\x7d]") := by
  decide +kernel

end Model

section Secrets

mutual

/-- Two details that differ in values under keys of a set only. -/
inductive SameDetail (K : Str → Prop) : Detail → Detail → Prop
  | same (d : Detail) : SameDetail K d d
  | mapping {entries entries' : List (Str × Detail)} :
      SameEntries K entries entries' → SameDetail K (.mapping entries) (.mapping entries')
  | list {items items' : List Detail} :
      SameItems K items items' → SameDetail K (.list items) (.list items')

/-- Two mappings that differ in values under keys of a set only. -/
inductive SameEntries (K : Str → Prop) : List (Str × Detail) → List (Str × Detail) → Prop
  | nil : SameEntries K [] []
  | secret {rest rest' : List (Str × Detail)} (key : Str) (value value' : Detail) : K key →
      SameEntries K rest rest' → SameEntries K ((key, value) :: rest) ((key, value') :: rest')
  | cons {value value' : Detail} {rest rest' : List (Str × Detail)} (key : Str) :
      SameDetail K value value' → SameEntries K rest rest' →
      SameEntries K ((key, value) :: rest) ((key, value') :: rest')

/-- Two lists that differ in values under keys of a set only. -/
inductive SameItems (K : Str → Prop) : List Detail → List Detail → Prop
  | nil : SameItems K [] []
  | cons {item item' : Detail} {rest rest' : List Detail} :
      SameDetail K item item' → SameItems K rest rest' →
      SameItems K (item :: rest) (item' :: rest')

end

variable {K : Str → Prop} {d d' : Detail} {entries entries' : List (Str × Detail)}
  {items items' : List Detail} {redactNested : Detail → Detail}

/-- What is made of the items of two lists is the same, if it is the same of each. -/
theorem map_same {f : Detail → Detail} (hf : ∀ d d', SameDetail K d d' → f d = f d')
    (h : SameItems K items items') (n : ℕ) : (items.take n).map f = (items'.take n).map f := by
  induction items generalizing items' n with
  | nil =>
    cases h
    rfl
  | cons item rest ih =>
    cases h with
    | cons hitem hrest =>
      cases n with
      | zero => rfl
      | succ n => rw [List.take_succ_cons, List.take_succ_cons, List.map_cons, List.map_cons,
          hf _ _ hitem, ih hrest]

variable [Alphanumeric] {sensitive : List Str} {arranged : Arranged sensitive}

/-- Nothing of a protected value goes into the loop's result. -/
theorem redactEntries_same (hK : ∀ key, K key → isSensitiveDetailKey (detailKey arranged key) = true)
    (hnested : ∀ d d', SameDetail K d d' → redactNested d = redactNested d')
    (h : SameEntries K entries entries') (index : ℕ) (result : List (Str × Detail)) :
    redactEntries arranged redactNested index result entries =
      redactEntries arranged redactNested index result entries' := by
  induction entries generalizing entries' index result with
  | nil =>
    cases h
    rfl
  | cons entry rest ih =>
    unfold redactEntries
    cases h with
    | secret key value value' hkey hrest => simp only [hK key hkey, if_true, ih hrest]
    | cons key hvalue hrest => simp only [hnested _ _ hvalue, ih hrest]

/-- **Nothing of a protected value goes into a redacted one,** at any depth. -/
theorem redactValue_same (hK : ∀ key, K key → isSensitiveDetailKey (detailKey arranged key) = true)
    (levels : ℕ) (h : SameDetail K d d') :
    redactValue arranged levels d = redactValue arranged levels d' := by
  induction levels generalizing d d' with
  | zero => cases h <;> rfl
  | succ levels ih =>
    cases h with
    | same => rfl
    | mapping h =>
      show Detail.mapping _ = .mapping _
      rw [redactEntries_same hK (fun _ _ => ih) h]
    | list h =>
      show Detail.list _ = .list _
      rw [map_same (fun _ _ => ih) h]

/-- **Two mappings that differ under protected keys only** are redacted to the same. -/
theorem redactMapping_same (hK : ∀ key, K key → isSensitiveDetailKey (detailKey arranged key) = true)
    (levels : ℕ) (h : SameEntries K entries entries') :
    redactMapping arranged levels entries = redactMapping arranged levels entries' := by
  cases levels with
  | zero => rfl
  | succ levels => exact redactEntries_same hK (fun _ _ => redactValue_same hK levels) h 0 []

end Secrets

section Keys

variable [Alphanumeric] {words : Text.Pattern Point} {L : Str → Prop} {before : Option Point}
  {t out w kept : Str}

/-- A key word that stands before something with a separator in it ends before the separator. -/
theorem IsKept.prefix_iff (hkeep : IsKept L before kept) (hw : ∀ c ∈ w, isKeyPoint c = true)
    (s : Str) : w <+: kept ++ s ↔ w <+: kept := by
  refine ⟨fun h => ?_, fun h => h.trans (List.prefix_append _ _)⟩
  obtain hle | hle := List.prefix_or_prefix_of_prefix h (List.prefix_append kept s)
  · exact hle
  · obtain ⟨key, space, c, space', rfl, -, -, hc, -⟩ := hkeep
    have hpoint := hw c (hle.subset (by simp))
    simp [isKeyPoint, hc] at hpoint

/-- A key word starts the new text if it starts the old one. -/
theorem Redacted.prefix_iff (hL : KeyLanguage words L) (h : Redacted words before t out)
    (hw : ∀ c ∈ w, isKeyPoint c = true) : w <+: out ↔ w <+: t := by
  induction h generalizing w with
  | nil => rfl
  | same _ _ ih =>
    cases w with
    | nil => simp
    | cons d w => rw [List.cons_prefix_cons, List.cons_prefix_cons,
        ih (List.forall_mem_cons.mp hw).2]
  | hit hfound _ _ _ =>
    obtain ⟨hkeep, -⟩ := isKept_of_found hL hfound
    rw [List.append_assoc, List.append_assoc, hkeep.prefix_iff hw, hkeep.prefix_iff hw]

/-- **The key words in the first characters stay there.** -/
theorem Redacted.infix_take_iff (hL : KeyLanguage words L) (h : Redacted words before t out)
    (n : ℕ) : (∃ u, L u ∧ u <:+: out.take n) ↔ ∃ u, L u ∧ u <:+: t.take n := by
  induction h generalizing n with
  | nil => rfl
  | @same before c t out _ hrest ih =>
    cases n with
    | zero => rfl
    | succ n =>
      have hprefix {u : Str} (hu : L u) : u <+: c :: out.take n ↔ u <+: c :: t.take n := by
        cases u with
        | nil => simp
        | cons d w =>
          have hw := (List.forall_mem_cons.mp (hL.points _ hu)).2
          rw [List.cons_prefix_cons, List.cons_prefix_cons, List.prefix_take_iff,
            List.prefix_take_iff, Redacted.prefix_iff hL hrest hw]
      simp only [List.take_succ_cons, List.infix_cons_iff, and_or_left, exists_or, ih]
      refine or_congr (exists_congr fun u => and_congr_right fun hu => hprefix hu) Iff.rfl
  | @hit before kept dropped t out hfound _ _ _ =>
    obtain ⟨⟨key, space, c, space', rfl, hkey, -⟩, -⟩ := isKept_of_found hL hfound
    have htext (s s' : Str) : key ++ (space ++ c :: space') ++ s ++ s' =
        key ++ (space ++ c :: space' ++ (s ++ s')) := by simp
    rw [htext, htext]
    by_cases hn : key.length ≤ n
    · have hhere (s : Str) : ∃ u, L u ∧ u <:+: (key ++ s).take n :=
        ⟨key, hkey, (List.prefix_take_iff.mpr ⟨List.prefix_append _ _, hn⟩).isInfix⟩
      exact iff_of_true (hhere _) (hhere _)
    · have hsame (s : Str) : (key ++ s).take n = key.take n :=
        List.take_append_of_le_length (Nat.le_of_not_le hn)
      rw [hsame, hsame]

/-- Without sensitive values a key is protected if its first 100 characters have a match. -/
theorem isSensitiveDetailKey_detailKey (key : Str) :
    isSensitiveDetailKey (detailKey .none key) = isSensitiveDetailKey (key.take 100) := by
  obtain ⟨L, hL⟩ := keyLanguage_auditWords
  have hrun : Redacted auditWords none key (redactAuditText .none key) :=
    redacted_sub auditWords key
  have hsearch (t : Str) : isSensitiveDetailKey t = true ↔ ∃ u, L u ∧ u <:+: t := by
    rw [← not_iff_not, Bool.not_eq_true, isSensitiveDetailKey, hL.spells.search_eq_false]
    simp only [not_exists, not_and]
  rw [Bool.eq_iff_iff, hsearch, hsearch]
  exact hrun.infix_take_iff hL 100

end Keys

section Protection

/-- A character is written in six at most. -/
theorem length_jsonEscape_le (c : Point) : (jsonEscape c).length ≤ 6 := by
  unfold jsonEscape
  split
  · exact Nat.le_of_ble_eq_true rfl
  · split_ifs <;> exact Nat.le_of_ble_eq_true rfl

/-- A text is written in six characters for each of its own, and two. -/
theorem length_jsonDumps_le (t : Str) : (jsonDumps t).length ≤ 6 * t.length + 2 := by
  have hflat : (t.flatMap jsonEscape).length ≤ 6 * t.length := by
    induction t with
    | nil => exact Nat.le_refl _
    | cons c t ih =>
      have hc := length_jsonEscape_le c
      rw [List.flatMap_cons, List.length_append, List.length_cons]
      omega
  rw [jsonDumps, List.length_cons, List.length_append, List.length_singleton]
  omega

/-- A character is encoded in four bytes at most. -/
theorem size_encodeUtf8_le {t : Str} {b : ByteArray} (h : encodeUtf8 t = some b) :
    b.size ≤ 4 * t.length := by
  obtain ⟨cs, rfl, rfl⟩ := encodeUtf8_eq_some.mp h
  rw [List.length_map, String.toByteArray_ofList]
  induction cs with
  | nil => exact Nat.le_refl _
  | cons c cs ih =>
    have hc : [c].utf8Encode.size ≤ 4 := by
      rw [List.utf8Encode_singleton, List.size_toByteArray, String.length_utf8EncodeChar]
      exact c.utf8Size_le_four
    rw [List.utf8Encode_cons, ByteArray.size_append, List.length_cons]
    have := ih (encodeUtf8_eq_some.mpr ⟨cs, rfl, rfl⟩)
    omega

/-- An integer of too many digits raises, whatever its key is. -/
theorem encodedDetails_tooManyDigits (key : Str) :
    encodedDetails [(key, .int ((10 ^ maxIntDigits : ℕ) : ℤ))] = .error .tooManyDigits := by
  have hint : (Detail.int ((10 ^ maxIntDigits : ℕ) : ℤ)).written = .error .tooManyDigits := by
    rw [Detail.written, if_pos (by rw [Int.natAbs_natCast])]
    rfl
  rw [encodedDetails, Detail.written, Detail.writtenEntries, hint]
  rfl

/-- One short entry does not raise for its value, and is not too large. -/
theorem encodedDetails_bool {key : Str} (hkey : key.length ≤ 100) (value : Bool) :
    encodedDetails [(key, .bool value)] = .error .notEncodable ∨
      ∃ encoded, encodedDetails [(key, .bool value)] = .ok encoded ∧
        encoded.size ≤ maxAuditDetailsBytes := by
  have hwritten : encodedDetails [(key, .bool value)] = encodeWritten (str "\x7b" ++
      (str ", ").intercalate [jsonDumps key ++ str ": " ++ str (if value then "true" else "false")] ++
        str "\x7d") := rfl
  have hlength : (str "\x7b" ++ (str ", ").intercalate
      [jsonDumps key ++ str ": " ++ str (if value then "true" else "false")] ++
        str "\x7d").length ≤ 620 := by
    have hdumps := length_jsonDumps_le key
    have hvalue : (str (if value then "true" else "false")).length ≤ 5 := by
      cases value <;> decide
    have hmarks : (str "\x7b").length = 1 ∧ (str ": ").length = 2 ∧ (str "\x7d").length = 1 := by
      decide
    simp only [List.intercalate_singleton, List.length_append]
    omega
  rw [hwritten]
  unfold encodeWritten
  split
  · rename_i encoded hencode
    refine .inr ⟨encoded, rfl, ?_⟩
    have hsize := size_encodeUtf8_le hencode
    unfold maxAuditDetailsBytes
    omega
  · exact .inl rfl

variable [Alphanumeric] {sensitive : List Str}

/-- One entry is looked at in itself. -/
theorem redactMapping_single (arranged : Arranged sensitive) {key : Str}
    (h : isSensitiveDetailKey (detailKey arranged key) = false) (value : Detail) :
    redactMapping arranged maxAuditDetailDepth [(key, value)] =
      [(detailKey arranged key, redactValue arranged 5 value)] := by
  show [(detailKey arranged key, if isSensitiveDetailKey (detailKey arranged key) then _ else _)] = _
  rw [h]
  rfl

/-- Without a match in its key an integer is written, and may raise. -/
theorem redactAuditDetails_int (arranged : Arranged sensitive) {key : Str}
    (h : isSensitiveDetailKey (detailKey arranged key) = false) :
    let details := [(key, Detail.int ((10 ^ maxIntDigits : ℕ) : ℤ))]
    ¬IsTooLarge arranged details ∧
      redactAuditDetails arranged (some details) = .error .tooManyDigits := by
  intro details
  have hraises : encodedDetails (redactMapping arranged maxAuditDetailDepth details) =
      .error .tooManyDigits := by
    rw [redactMapping_single arranged h]
    exact encodedDetails_tooManyDigits _
  constructor
  · rintro ⟨encoded, hencoded, -⟩
    cases hraises.symm.trans hencoded
  · rw [redactAuditDetails, hraises]
    rfl

/-- With `True` for its value it does not. -/
theorem redactAuditDetails_bool (arranged : Arranged sensitive) {key : Str}
    (h : isSensitiveDetailKey (detailKey arranged key) = false) :
    let details := [(key, Detail.bool true)]
    ¬IsTooLarge arranged details ∧
      redactAuditDetails arranged (some details) ≠ .error .tooManyDigits := by
  intro details
  have hsingle : redactMapping arranged maxAuditDetailDepth details =
      [(detailKey arranged key, .bool true)] := redactMapping_single arranged h _
  unfold IsTooLarge
  rw [redactAuditDetails, hsingle]
  obtain hraises | ⟨encoded, hencoded, hle⟩ :=
    encodedDetails_bool (List.length_take_le 100 (redactAuditText arranged key)) true
  · change encodedDetails [(detailKey arranged key, .bool true)] = _ at hraises
    rw [hraises]
    exact ⟨by rintro ⟨_, ⟨⟩, -⟩, fun hsame => by cases hsame⟩
  · change encodedDetails [(detailKey arranged key, .bool true)] = _ at hencoded
    rw [hencoded]
    constructor
    · rintro ⟨_, ⟨⟩, hlt⟩
      omega
    · show (if _ then _ else _ : Except DetailError _) ≠ _
      rw [if_neg (Nat.not_lt.mpr hle)]
      exact fun hsame => by cases hsame

/-- **The values of keys are protected if each still has a match once it was redacted and cut,**
and only then; without sensitive values, if it has one in its first 100 characters. -/
theorem protectsValues_iff :
    (∀ (sensitive : List Str) (arranged : Arranged sensitive) (K : Str → Prop),
      (∀ details details', SameEntries K details details' → ¬IsTooLarge arranged details →
        ¬IsTooLarge arranged details' →
        redactAuditDetails arranged (some details) =
          redactAuditDetails arranged (some details')) ↔
      ∀ key, K key → isSensitiveDetailKey (detailKey arranged key) = true) ∧
    ∀ key, isSensitiveDetailKey (detailKey .none key) = isSensitiveDetailKey (key.take 100) := by
  refine ⟨fun sensitive arranged K => ⟨fun h key hkey => ?_, fun h details details' hsame _ _ => ?_⟩,
    isSensitiveDetailKey_detailKey⟩
  · by_contra hnot
    rw [Bool.not_eq_true] at hnot
    obtain ⟨hint, hraises⟩ := redactAuditDetails_int arranged hnot
    obtain ⟨hbool, hreturns⟩ := redactAuditDetails_bool arranged hnot
    exact hreturns ((h _ _ (.secret key _ _ hkey .nil) hint hbool).symm.trans hraises)
  · rw [redactAuditDetails, redactAuditDetails, redactMapping_same h _ hsame]

end Protection

section Clean

mutual

/-- Details that can be written: no integer of too many digits, no lone surrogate, and nothing
that is none of JSON. -/
def Detail.IsClean : Detail → Prop
  | .mapping entries => CleanEntries entries
  | .list items => CleanItems items
  | .text value => IsEncodable value
  | .int value => value.natAbs < 10 ^ maxIntDigits
  | .other _ => False
  | .null => True
  | .bool _ => True
  | .float _ => True

/-- A mapping that can be written. -/
def Detail.CleanEntries : List (Str × Detail) → Prop
  | [] => True
  | (key, value) :: rest => IsEncodable key ∧ value.IsClean ∧ CleanEntries rest

/-- A list that can be written. -/
def Detail.CleanItems : List Detail → Prop
  | [] => True
  | item :: rest => item.IsClean ∧ CleanItems rest

end

variable {t u : Str} {key : Str} {value d : Detail} {entries rest : List (Str × Detail)}
  {items : List Detail}

/-- A mapping is as encodable as its keys and its values. -/
theorem isEncodable_writtenMapping {es : List (Str × Str)} :
    IsEncodable (writtenMapping es) ↔ ∀ e ∈ es, IsEncodable e.1 ∧ IsEncodable e.2 := by
  unfold writtenMapping
  rw [isEncodable_append, isEncodable_append, isEncodable_intercalate (isEncodable_str _)]
  simp only [isEncodable_str, and_true, true_and, List.forall_mem_map, isEncodable_append,
    isEncodable_jsonDumps, List.mem_insertionSort]

mutual

/-- **Clean details are what can be written and encoded.** -/
theorem Detail.isClean_iff : ∀ d : Detail,
    (∃ t, d.written = .ok t ∧ IsEncodable t) ↔ d.IsClean
  | .mapping entries => by
    rw [Detail.IsClean, ← cleanEntries_iff entries, Detail.written]
    simp only [except_bind_eq_ok]
    constructor
    · rintro ⟨_, ⟨es, hes, ⟨⟩⟩, ht⟩
      exact ⟨es, hes, isEncodable_writtenMapping.mp ht⟩
    · rintro ⟨es, hes, ht⟩
      exact ⟨_, ⟨es, hes, rfl⟩, isEncodable_writtenMapping.mpr ht⟩
  | .list items => by
    rw [Detail.IsClean, ← cleanItems_iff items, Detail.written]
    simp only [except_bind_eq_ok]
    have hmarks {ts : List Str} : IsEncodable (str "[" ++ (str ", ").intercalate ts ++ str "]") ↔
        ∀ t ∈ ts, IsEncodable t := by
      rw [isEncodable_append, isEncodable_append, isEncodable_intercalate (isEncodable_str _)]
      simp only [isEncodable_str, and_true, true_and]
    constructor
    · rintro ⟨_, ⟨ts, hts, ⟨⟩⟩, ht⟩
      exact ⟨ts, hts, hmarks.mp ht⟩
    · rintro ⟨ts, hts, ht⟩
      exact ⟨_, ⟨ts, hts, rfl⟩, hmarks.mpr ht⟩
  | .text value => by
    rw [Detail.IsClean, Detail.written]
    constructor
    · rintro ⟨_, ⟨⟩, ht⟩
      exact isEncodable_jsonDumps.mp ht
    · exact fun h => ⟨_, rfl, isEncodable_jsonDumps.mpr h⟩
  | .null => iff_of_true ⟨_, rfl, isEncodable_str _⟩ trivial
  | .bool _ => iff_of_true ⟨_, rfl, isEncodable_str _⟩ trivial
  | .float _ => iff_of_true ⟨_, rfl, isEncodable_str _⟩ trivial
  | .other _ => iff_of_false (by rintro ⟨_, ⟨⟩, -⟩) id
  | .int value => by
    rw [Detail.IsClean, Detail.written]
    split_ifs with h
    · exact iff_of_false (by rintro ⟨_, ⟨⟩, -⟩) (Nat.not_lt.mpr h)
    · exact iff_of_true ⟨_, rfl, isEncodable_str _⟩ (Nat.not_le.mp h)

/-- A mapping can be written if it is clean. -/
theorem Detail.cleanEntries_iff : ∀ entries : List (Str × Detail),
    (∃ es, writtenEntries entries = .ok es ∧ ∀ e ∈ es, IsEncodable e.1 ∧ IsEncodable e.2) ↔
      CleanEntries entries
  | [] => iff_of_true ⟨[], rfl, nofun⟩ trivial
  | (key, value) :: rest => by
    rw [CleanEntries, ← value.isClean_iff, ← cleanEntries_iff rest, writtenEntries]
    simp only [except_bind_eq_ok]
    constructor
    · rintro ⟨_, ⟨t, ht, es, hes, ⟨⟩⟩, hall⟩
      obtain ⟨⟨hkey, hvalue⟩, hrest⟩ := List.forall_mem_cons.mp hall
      exact ⟨hkey, ⟨t, ht, hvalue⟩, es, hes, hrest⟩
    · rintro ⟨hkey, ⟨t, ht, hvalue⟩, es, hes, hrest⟩
      exact ⟨_, ⟨t, ht, es, hes, rfl⟩, List.forall_mem_cons.mpr ⟨⟨hkey, hvalue⟩, hrest⟩⟩

/-- A list can be written if it is clean. -/
theorem Detail.cleanItems_iff : ∀ items : List Detail,
    (∃ ts, writtenItems items = .ok ts ∧ ∀ t ∈ ts, IsEncodable t) ↔ CleanItems items
  | [] => iff_of_true ⟨[], rfl, nofun⟩ trivial
  | item :: rest => by
    rw [CleanItems, ← item.isClean_iff, ← cleanItems_iff rest, writtenItems]
    simp only [except_bind_eq_ok]
    constructor
    · rintro ⟨_, ⟨t, ht, ts, hts, ⟨⟩⟩, hall⟩
      obtain ⟨hitem, hrest⟩ := List.forall_mem_cons.mp hall
      exact ⟨⟨t, ht, hitem⟩, ts, hts, hrest⟩
    · rintro ⟨⟨t, ht, hitem⟩, ts, hts, hrest⟩
      exact ⟨_, ⟨t, ht, ts, hts, rfl⟩, List.forall_mem_cons.mpr ⟨hitem, hrest⟩⟩

end

/-- **Clean details do not raise,** and no other details do not. -/
theorem encodedDetails_isOk :
    (∃ encoded, encodedDetails entries = .ok encoded) ↔ Detail.CleanEntries entries := by
  have hmapping := (Detail.mapping entries).isClean_iff
  rw [Detail.IsClean] at hmapping
  rw [← hmapping]
  unfold encodedDetails encodeWritten
  simp only [except_bind_eq_ok]
  constructor
  · rintro ⟨encoded, t, ht, hencode⟩
    refine ⟨t, ht, isSome_encodeUtf8.mp ?_⟩
    split at hencode
    · rename_i hsome
      rw [hsome]
      rfl
    · cases hencode
  · rintro ⟨t, ht, hencodable⟩
    obtain ⟨encoded, hencode⟩ := Option.isSome_iff_exists.mp (isSome_encodeUtf8.mpr hencodable)
    exact ⟨encoded, t, ht, by rw [hencode]⟩

/-- A list is clean if its items are. -/
theorem cleanItems_iff_forall : Detail.CleanItems items ↔ ∀ d ∈ items, d.IsClean := by
  induction items with
  | nil => exact iff_of_true trivial nofun
  | cons d rest ih => rw [List.forall_mem_cons, ← ih, Detail.CleanItems]

/-- A clean mapping stays clean with a clean item. -/
theorem cleanEntries_setItem (h : Detail.CleanEntries entries) (hkey : IsEncodable key)
    (hvalue : value.IsClean) : Detail.CleanEntries (setItem entries key value) := by
  induction entries with
  | nil => exact ⟨hkey, hvalue, trivial⟩
  | cons e rest ih =>
    obtain ⟨hother, hold, hrest⟩ := h
    unfold setItem
    split_ifs
    · exact ⟨hother, hvalue, hrest⟩
    · exact ⟨hother, hold, ih hrest⟩

variable [Alphanumeric] {sensitive : List Str} (arranged : Arranged sensitive)

/-- A redacted text is as encodable as the text was. -/
theorem isEncodable_redactAuditText (h : IsEncodable t) :
    IsEncodable (redactAuditText arranged t) := by
  have hprotected : IsEncodable protectedValue := isEncodable_str _
  have hsub {kept dropped : Text.Pattern Point} {t : Str} (h : IsEncodable t) :
      IsEncodable (sub kept dropped protectedValue t) :=
    fun c hc => (mem_substitute hc).elim (h c) (hprotected c)
  have hvalues {values : List Str} {t : Str} (h : IsEncodable t) :
      IsEncodable (replaceValues values t) := by
    induction values generalizing t with
    | nil => exact h
    | cons v values ih => exact ih (hsub h)
  exact hvalues (hsub h)

/-- What is redacted entry by entry is clean. -/
theorem cleanEntries_redactEntries {redactNested : Detail → Detail}
    (hnested : ∀ d : Detail, d.IsClean → (redactNested d).IsClean) {result : List (Str × Detail)}
    (h : Detail.CleanEntries entries) (hresult : Detail.CleanEntries result) (index : ℕ) :
    Detail.CleanEntries (redactEntries arranged redactNested index result entries) := by
  induction entries generalizing index result with
  | nil => exact hresult
  | cons e rest ih =>
    obtain ⟨hkey, hvalue, hrest⟩ := h
    unfold redactEntries
    split
    · exact cleanEntries_setItem hresult (isEncodable_str _) (isEncodable_str _)
    · refine ih hrest (cleanEntries_setItem hresult
        ((isEncodable_redactAuditText arranged hkey).take 100) ?_) _
      split
      · exact isEncodable_str _
      · exact hnested _ hvalue

/-- Redacting keeps details clean. -/
theorem isClean_redactValue (levels : ℕ) (h : d.IsClean) :
    (redactValue arranged levels d).IsClean := by
  induction levels generalizing d with
  | zero =>
    cases d with
    | mapping entries => exact ⟨isEncodable_str _, isEncodable_str _, trivial⟩
    | list items => exact isEncodable_str _
    | text value => exact (isEncodable_redactAuditText arranged h).take _
    | other printed => exact absurd h id
    | _ => exact h
  | succ levels ih =>
    cases d with
    | mapping entries =>
      have hnil : Detail.CleanEntries [] := trivial
      exact cleanEntries_redactEntries arranged (fun _ => ih) h hnil 0
    | list items =>
      refine cleanItems_iff_forall.mpr fun d hd => ?_
      obtain ⟨item, hitem, rfl⟩ := List.mem_map.mp hd
      exact ih (cleanItems_iff_forall.mp h item (List.mem_of_mem_take hitem))
    | text value => exact (isEncodable_redactAuditText arranged h).take _
    | other printed => exact absurd h id
    | _ => exact h

/-- A redacted mapping is clean. -/
theorem cleanEntries_redactMapping (levels : ℕ) (h : Detail.CleanEntries entries) :
    Detail.CleanEntries (redactMapping arranged levels entries) := by
  cases levels with
  | zero => exact ⟨isEncodable_str _, isEncodable_str _, trivial⟩
  | succ levels =>
    have hnil : Detail.CleanEntries [] := trivial
    exact cleanEntries_redactEntries arranged (fun _ => isClean_redactValue arranged levels) h
      hnil 0

/-- What was redacted without raising is clean. -/
theorem cleanEntries_of_redacted {details : Option (List (Str × Detail))}
    (h : redactAuditDetails arranged details = .ok (some entries)) :
    Detail.CleanEntries entries := by
  cases details with
  | none => cases h
  | some details =>
    unfold redactAuditDetails at h
    obtain ⟨encoded, hencoded, h⟩ := except_bind_eq_ok.mp h
    split at h
    · cases h
      exact ⟨isEncodable_str _, isEncodable_str _, trivial⟩
    · cases h
      exact encodedDetails_isOk.mp ⟨encoded, hencoded⟩

/-- **Clean details are redacted without raising.** -/
theorem exists_redacted (h : Detail.CleanEntries entries) :
    ∃ redacted, redactAuditDetails arranged (some entries) = .ok (some redacted) := by
  obtain ⟨encoded, hencoded⟩ :=
    encodedDetails_isOk.mpr (cleanEntries_redactMapping arranged maxAuditDetailDepth h)
  rw [redactAuditDetails, hencoded]
  by_cases hsize : maxAuditDetailsBytes < encoded.size
  · exact ⟨_, if_pos hsize⟩
  · exact ⟨_, if_neg hsize⟩

end Clean

section Long

/-- A key that says what it is after its first 100 characters. -/
def longKey : Str := List.replicate 100 (.ofChar 'x') ++ str "password"

/-- The first text of some redacted details. -/
def firstText : Except DetailError (Option (List (Str × Detail))) → Option Str
  | .ok (some ((_, .text value) :: _)) => some value
  | _ => none

/-- How much the details take is found by writing them. -/
theorem not_isTooLarge [Alphanumeric] {sensitive : List Str} {arranged : Arranged sensitive}
    {details : List (Str × Detail)}
    (h : (encodedDetails (redactMapping arranged maxAuditDetailDepth details)).toOption.any
      (fun encoded => decide (encoded.size ≤ maxAuditDetailsBytes)) = true) :
    ¬IsTooLarge arranged details := by
  rintro ⟨encoded, hencoded, hlt⟩
  rw [hencoded] at h
  exact Nat.not_lt.mpr (of_decide_eq_true h) hlt

/-- Two passwords that the audit keeps. -/
theorem protectsValues_longKey : ∃ (_ : Alphanumeric) (details details' : List (Str × Detail)),
    SameEntries (isSensitiveDetailKey · = true) details details' ∧ ¬IsTooLarge .none details ∧
      ¬IsTooLarge .none details' ∧
      redactAuditDetails .none (some details) ≠ redactAuditDetails .none (some details') := by
  refine ⟨.asciiOnly, [(longKey, .text (str "one"))], [(longKey, .text (str "two"))],
    .secret longKey _ _ (by decide) .nil, ?_, ?_, fun hsame => ?_⟩
  · exact @not_isTooLarge .asciiOnly _ _ _ (by decide)
  · exact @not_isTooLarge .asciiOnly _ _ _ (by decide)
  · exact absurd (congrArg firstText hsame) (by decide)

end Long

end PalworldManager
