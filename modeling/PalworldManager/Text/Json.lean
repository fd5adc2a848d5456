/-
# Strings in JSON

`json.loads` of a document that is a string, and `json.dumps` of a string with
`ensure_ascii=False`.  The reader is strict: no control character may stand in a
string.  Two escapes `\uD8xx\uDCxx` in a row are one character; a surrogate that
has no partner stays by itself.  `jsonLoads_jsonDumps` is the round trip.
-/

import PalworldManager.Text.Utf8

namespace Text

/-- The characters that an escape of one letter stands for. -/
def jsonLetters : List (Point × Point) :=
  [(quotation, quotation), (backslash, backslash), (.ofChar '/', .ofChar '/'), (.ofChar 'b', 8),
    (.ofChar 'f', 12), (.ofChar 'n', 10), (.ofChar 'r', 13), (.ofChar 't', 9)]

/-- The value of a hexadecimal digit. -/
def hexValue (c : Point) : Option ℕ :=
  if 48 ≤ c.val ∧ c.val ≤ 57 then some (c.val - 48)
  else if 97 ≤ c.val ∧ c.val ≤ 102 then some (c.val - 87)
  else if 65 ≤ c.val ∧ c.val ≤ 70 then some (c.val - 55)
  else none

/-- The hexadecimal digit of a number below 16. -/
def hexDigit (n : ℕ) : Point := Fin.ofNat _ (if n < 10 then 48 + n else 87 + n)

/-- What a string is read as: a character, or an escape of four digits. -/
inductive JsonUnit where
  | raw (c : Point)
  | coded (n : ℕ)
  deriving DecidableEq, Repr

/-- Where the reader stands: between two characters, after a backslash, or before
so many digits of an escape. -/
inductive JsonMode where
  | plain
  | escape
  | hex (left value : ℕ)

/-- Read a string up to its closing quotation mark. -/
def jsonUnits : JsonMode → Str → Option (List JsonUnit × Str)
  | _, [] => none
  | .plain, c :: t =>
      if c = quotation then some ([], t)
      else if c = backslash then jsonUnits .escape t
      else if c.val < 32 then none
      else (jsonUnits .plain t).map fun r => (.raw c :: r.1, r.2)
  | .escape, c :: t =>
      if c = .ofChar 'u' then jsonUnits (.hex 3 0) t
      else match jsonLetters.lookup c with
        | some d => (jsonUnits .plain t).map fun r => (.raw d :: r.1, r.2)
        | none => none
  | .hex left value, c :: t =>
      match hexValue c, left with
      | some d, 0 => (jsonUnits .plain t).map fun r => (.coded (16 * value + d) :: r.1, r.2)
      | some d, left + 1 => jsonUnits (.hex left (16 * value + d)) t
      | none, _ => none

/-- The characters that the escapes and characters of a string stand for. -/
def joinUnits : List JsonUnit → Str
  | [] => []
  | .raw c :: us => c :: joinUnits us
  | [.coded n] => [Fin.ofNat _ n]
  | .coded n :: .raw c :: us => Fin.ofNat _ n :: joinUnits (.raw c :: us)
  | .coded n :: .coded m :: us =>
      if (0xd800 ≤ n ∧ n ≤ 0xdbff) ∧ (0xdc00 ≤ m ∧ m ≤ 0xdfff) then
        Fin.ofNat _ (0x10000 + (n - 0xd800) * 0x400 + (m - 0xdc00)) :: joinUnits us
      else
        Fin.ofNat _ n :: joinUnits (.coded m :: us)

/-- White space of JSON. -/
def isJsonSpace (c : Point) : Bool := c == 32 || c == 9 || c == 10 || c == 13

/-- `json.loads` of a text that starts with a quotation mark; nothing but white space
may follow the string. -/
def jsonLoads : Str → Option Str
  | [] => none
  | c :: t =>
      if c = quotation then
        match jsonUnits .plain t with
        | some (us, rest) => if rest.all isJsonSpace then some (joinUnits us) else none
        | none => none
      else none

/-- How `json.dumps` writes one character. -/
def jsonEscape (c : Point) : Str :=
  if c = quotation then [backslash, quotation]
  else if c = backslash then [backslash, backslash]
  else if c = 8 then [backslash, .ofChar 'b']
  else if c = 12 then [backslash, .ofChar 'f']
  else if c = 10 then [backslash, .ofChar 'n']
  else if c = 13 then [backslash, .ofChar 'r']
  else if c = 9 then [backslash, .ofChar 't']
  else if c.val < 32 then
    [backslash, .ofChar 'u', .ofChar '0', .ofChar '0', hexDigit (c.val / 16), hexDigit (c.val % 16)]
  else [c]

/-- `json.dumps(t, ensure_ascii=False)`. -/
def jsonDumps (t : Str) : Str := quotation :: (t.flatMap jsonEscape ++ [quotation])

/-- The control characters that have no escape of one letter. -/
def isCoded (c : Point) : Bool :=
  decide (c.val < 32) && !(c == 8 || c == 9 || c == 10 || c == 12 || c == 13)

/-- What a character written by `json.dumps` is read as. -/
def jsonUnit (c : Point) : JsonUnit := if isCoded c then .coded c.val else .raw c

section RoundTrip

/-- A hexadecimal digit is read as it was written. -/
theorem hexValue_hexDigit : ∀ n < 16, hexValue (hexDigit n) = some n := by decide

/-- **One character is read back.** -/
theorem jsonUnits_jsonEscape (c : Point) (t : Str) :
    jsonUnits .plain (jsonEscape c ++ t) =
      (jsonUnits .plain t).map fun r => (jsonUnit c :: r.1, r.2) := by
  rw [jsonEscape]
  split_ifs with hq hb h8 h12 h10 h13 h9 hcontrol
  · subst hq; rfl
  · subst hb; rfl
  · subst h8; rfl
  · subst h12; rfl
  · subst h10; rfl
  · subst h13; rfl
  · subst h9; rfl
  · have hunit : jsonUnit c = .coded c.val := by
      simp [jsonUnit, isCoded, hcontrol, h8, h9, h10, h12, h13]
    have hdiv : hexValue (hexDigit (c.val / 16)) = some (c.val / 16) :=
      hexValue_hexDigit _ (by omega)
    have hmod : hexValue (hexDigit (c.val % 16)) = some (c.val % 16) :=
      hexValue_hexDigit _ (by omega)
    have hval : 16 * (16 * (16 * (16 * 0 + 0) + 0) + c.val / 16) + c.val % 16 = c.val := by omega
    have hzero : hexValue (.ofChar '0') = some 0 := by decide
    have hne : ¬(backslash = quotation) := by decide
    simp only [List.cons_append, List.nil_append, jsonUnits, hne, if_false, if_true, hzero, hdiv,
      hmod, hval, hunit]
  · have hunit : jsonUnit c = .raw c := by simp [jsonUnit, isCoded, hcontrol]
    simp only [List.cons_append, List.nil_append, jsonUnits, hq, hb, hcontrol, if_false, hunit]

/-- Escaped characters are read back, up to the quotation mark that ends the string. -/
theorem jsonUnits_flatMap (t rest : Str) :
    jsonUnits .plain (t.flatMap jsonEscape ++ quotation :: rest) =
      some (t.map jsonUnit, rest) := by
  induction t with
  | nil => rfl
  | cons c t ih =>
    rw [List.flatMap_cons, List.append_assoc, jsonUnits_jsonEscape, ih]
    rfl

/-- What `json.dumps` writes has no escapes to be joined. -/
theorem joinUnits_map (t : Str) : joinUnits (t.map jsonUnit) = t := by
  induction t with
  | nil => rfl
  | cons c t ih =>
    rw [List.map_cons]
    by_cases hc : isCoded c = true
    · have hlt : c.val < 32 := by
        simp only [isCoded, Bool.and_eq_true, decide_eq_true_eq] at hc
        exact hc.1
      have hval : Fin.ofNat 0x110000 c.val = c := Fin.ofNat_val_eq_self c
      rw [jsonUnit, if_pos hc]
      cases t with
      | nil => rw [List.map_nil, joinUnits, hval]
      | cons d t =>
        rw [List.map_cons] at ih ⊢
        generalize jsonUnit d = u at ih ⊢
        cases u with
        | raw d' => rw [joinUnits, ih, hval]
        | coded m => rw [joinUnits, if_neg (by omega), ih, hval]
    · rw [jsonUnit, if_neg hc, joinUnits, ih]

/-- **The round trip.** -/
theorem jsonLoads_jsonDumps (t : Str) : jsonLoads (jsonDumps t) = some t := by
  rw [jsonDumps, jsonLoads, if_pos rfl, jsonUnits_flatMap]
  simp [joinUnits_map]

/-- **A string is told apart from what follows it.** -/
theorem jsonDumps_append_inj {s t r r' : Str} (h : jsonDumps s ++ r = jsonDumps t ++ r') :
    s = t ∧ r = r' := by
  have htail : s.flatMap jsonEscape ++ quotation :: r = t.flatMap jsonEscape ++ quotation :: r' := by
    simpa [jsonDumps] using h
  have hread := congrArg (jsonUnits .plain) htail
  rw [jsonUnits_flatMap, jsonUnits_flatMap] at hread
  obtain ⟨hunits, hrest⟩ : s.map jsonUnit = t.map jsonUnit ∧ r = r' := by simpa using hread
  exact ⟨by rw [← joinUnits_map s, hunits, joinUnits_map], hrest⟩

end RoundTrip

section Length

/-- A pair of surrogates becomes one character; nothing gets longer. -/
theorem length_joinUnits_le (us : List JsonUnit) : (joinUnits us).length ≤ us.length := by
  induction us using joinUnits.induct with
  | case1 => rfl
  | case2 c us ih => simpa [joinUnits] using ih
  | case3 n => simp [joinUnits]
  | case4 n c us ih => simpa [joinUnits] using ih
  | case5 n m us h ih =>
    rw [joinUnits, if_pos h]
    simp only [List.length_cons]
    omega
  | case6 n m us h ih =>
    rw [joinUnits, if_neg h]
    simpa using ih

/-- Every unit takes a character, and the closing quotation mark takes one. -/
theorem length_jsonUnits {m : JsonMode} {t rest : Str} {us : List JsonUnit}
    (h : jsonUnits m t = some (us, rest)) : us.length < t.length := by
  have hmap {t : Str} {u : JsonUnit} {us : List JsonUnit}
      (ih : ∀ us, jsonUnits .plain t = some (us, rest) → us.length < t.length)
      (h : ((jsonUnits .plain t).map fun r => (u :: r.1, r.2)) = some (us, rest)) :
      us.length < t.length + 1 := by
    obtain ⟨⟨us', rest'⟩, hus, heq⟩ := Option.map_eq_some_iff.mp h
    obtain ⟨rfl, rfl⟩ : u :: us' = us ∧ rest' = rest := by simpa using heq
    have hlt := ih us' hus
    rw [List.length_cons]
    omega
  induction t generalizing m us with
  | nil => cases m <;> cases h
  | cons c t ih =>
    rw [List.length_cons]
    cases m with
    | plain =>
      rw [jsonUnits] at h
      split_ifs at h
      · obtain ⟨rfl, -⟩ : [] = us ∧ t = rest := by simpa using h
        exact Nat.succ_pos _
      · exact Nat.lt_succ_of_lt (ih h)
      · exact hmap (fun us => ih) h
    | escape =>
      rw [jsonUnits] at h
      split_ifs at h
      · exact Nat.lt_succ_of_lt (ih h)
      · cases hc : jsonLetters.lookup c with
        | none => simp [hc] at h
        | some d => exact hmap (fun us => ih) (by simpa only [hc] using h)
    | hex left value =>
      cases left with
      | zero =>
        simp only [jsonUnits] at h
        split at h
        · exact hmap (fun us => ih) h
        · simp_all
        · cases h
      | succ left =>
        simp only [jsonUnits] at h
        split at h
        · simp_all
        · rename_i heq
          obtain rfl : left = _ := by simpa using heq
          exact Nat.lt_succ_of_lt (ih h)
        · cases h

/-- **What a string stands for is shorter than the string.** -/
theorem length_jsonLoads {t v : Str} (h : jsonLoads t = some v) : v.length < t.length := by
  cases t with
  | nil => cases h
  | cons c t =>
    rw [jsonLoads] at h
    split_ifs at h
    cases hus : jsonUnits .plain t with
    | none => simp [hus] at h
    | some r =>
      obtain ⟨us, rest⟩ := r
      simp only [hus] at h
      split_ifs at h
      obtain rfl : joinUnits us = v := by simpa using h
      have hus := length_jsonUnits hus
      have hjoin := length_joinUnits_le us
      rw [List.length_cons]
      omega

end Length

section Encodable

variable {t : Str}

/-- What is written for a character is encodable if it is. -/
theorem isEncodable_jsonEscape (c : Point) : IsEncodable (jsonEscape c) ↔ c.isSurrogate = false := by
  have hsmall : ∀ n < 128, (jsonEscape (Fin.ofNat _ n)).all (!·.isSurrogate) = true ∧
      Point.isSurrogate (Fin.ofNat _ n) = false := by decide
  by_cases hc : c.val < 128
  · obtain ⟨hall, hnot⟩ := hsmall c.val hc
    rw [Fin.ofNat_val_eq_self] at hall hnot
    refine iff_of_true (fun d hd => ?_) hnot
    simpa using List.all_eq_true.mp hall d hd
  · have hne (d : Point) (hd : d.val < 128) : c ≠ d := by
      rintro rfl
      exact hc hd
    have hself : jsonEscape c = [c] := by
      unfold jsonEscape
      rw [if_neg (hne _ (by decide)), if_neg (hne _ (by decide)), if_neg (hne _ (by decide)),
        if_neg (hne _ (by decide)), if_neg (hne _ (by decide)), if_neg (hne _ (by decide)),
        if_neg (hne _ (by decide)), if_neg (by omega)]
    rw [hself]
    exact List.forall_mem_singleton

/-- A text that is written as JSON is as encodable as it is. -/
theorem isEncodable_jsonDumps : IsEncodable (jsonDumps t) ↔ IsEncodable t := by
  have hquote : quotation.isSurrogate = false := by decide
  have hflat : IsEncodable (t.flatMap jsonEscape) ↔ IsEncodable t := by
    induction t with
    | nil => rfl
    | cons c t ih =>
      rw [List.flatMap_cons, isEncodable_append, ih, isEncodable_jsonEscape, isEncodable_cons]
  unfold jsonDumps
  constructor
  · intro h
    exact hflat.mp (isEncodable_append.mp (List.forall_mem_cons.mp h).2).1
  · intro h
    exact List.forall_mem_cons.mpr ⟨hquote, isEncodable_append.mpr
      ⟨hflat.mpr h, List.forall_mem_singleton.mpr hquote⟩⟩

end Encodable

end Text
