/-
# Redacted texts

`redact_audit_text` (`audit/service.py`) and `LogRedactor.redact` (`logs/service.py`): what
looks like the assignment of a secret loses its value, and each sensitive value is replaced.

The audit takes the first word after `Authorization:` for the credential, the log the rest of the
line (`authorization_survives`).
-/

import PalworldManager.Outcomes
import PalworldManager.Text.Lines
import PalworldManager.Text.Pattern
import PalworldManager.Text.Regex
import PalworldManager.Text.Utf8

namespace PalworldManager

open Text Text.Pattern

section Model

/-- The code points of the letters and digits of ASCII. -/
def isAsciiAlnum (n : ℕ) : Bool :=
  (48 ≤ n && n ≤ 57) || (65 ≤ n && n ≤ 90) || (97 ≤ n && n ≤ 122)

/-- `str.isalnum` of one character in the interpreter's database: it is given for ASCII, and no
white space has it. -/
class Alphanumeric where
  isAlnum : Point → Bool
  ascii : ∀ c : Point, c.val < 128 → isAlnum c = isAsciiAlnum c.val
  space : ∀ c : Point, c.isSpace = true → isAlnum c = false

/-- A database that knows the letters of ASCII only. -/
@[reducible]
def Alphanumeric.asciiOnly : Alphanumeric where
  isAlnum c := isAsciiAlnum c.val
  ascii _ _ := rfl
  space c hc := by
    simp only [Point.isSpace, isSpaceCode, Bool.or_eq_true, Bool.and_eq_true, decide_eq_true_eq,
      beq_iff_eq] at hc
    simp only [isAsciiAlnum, Bool.or_eq_false_iff, Bool.and_eq_false_iff, decide_eq_false_iff_not]
    omega

/-- A letter of a pattern under `re.IGNORECASE`. -/
def ignoringCase (l : Char) (c : Point) : Bool := c.toChar.any (Regex.sameIgnoringCase l)

/-- A word of a pattern under `re.IGNORECASE`, written in lower case. -/
def word (s : String) : Text.Pattern Point := cat (s.toList.map fun l => .one (ignoringCase l))

/-- `api[_-]?key` under `re.IGNORECASE`. -/
def apiKeyWord : Text.Pattern Point :=
  cat [word "api", opt (.one fun c => c == .ofChar '_' || c == .ofChar '-'), word "key"]

/-- The alternatives of `SENSITIVE_DETAIL_KEY_PATTERN` and `SENSITIVE_ASSIGNMENT_PATTERN`. -/
def auditWords : Text.Pattern Point :=
  any (word "password") [word "passwd", word "secret", word "token", word "webhook",
    word "authorization", word "cookie", word "credential", apiKeyWord]

/-- `\b`. -/
def wordBoundary [Alphanumeric] : Text.Pattern Point :=
  .boundary fun c => Alphanumeric.isAlnum c || c == .ofChar '_'

/-- `[:=]`. -/
def isAssign (c : Point) : Bool := c == .ofChar ':' || c == .ofChar '='

/-- `[^\s,;]`. -/
def isValue (c : Point) : Bool := !c.isSpace && c != .ofChar ',' && c != .ofChar ';'

/-- The two groups that stay: `\b(…)\b(\s*[:=]\s*)`. -/
def assignment [Alphanumeric] (words : Text.Pattern Point) : Text.Pattern Point :=
  cat [wordBoundary, words, wordBoundary, .star (.one Point.isSpace), .one isAssign,
    .star (.one Point.isSpace)]

/-- `PROTECTED_VALUE`. -/
def protectedValue : Str := str "[SEGREDO PROTEGIDO]"

/-- `sorted({item for item in values if item}, key=len, reverse=True)`: a set has no order of its
own. -/
structure Arranged (sensitive : List Str) where
  values : List Str
  mem_iff : ∀ v, v ∈ values ↔ v ∈ sensitive ∧ v ≠ []
  nodup : values.Nodup
  sorted : values.Pairwise fun v w => w.length ≤ v.length

/-- No sensitive values. -/
def Arranged.none : Arranged [] := ⟨[], by simp, List.nodup_nil, .nil⟩

/-- The loop over the sensitive values. -/
def replaceValues (values : List Str) (t : Str) : Str :=
  values.foldl (fun t v => replace v protectedValue t) t

/-- `SENSITIVE_ASSIGNMENT_PATTERN`. -/
def sensitiveAssignmentPattern [Alphanumeric] : Text.Pattern Point :=
  .seq (assignment auditWords) (plus isValue)

/-- `redact_audit_text`. -/
def redactAuditText [Alphanumeric] {sensitive : List Str} (arranged : Arranged sensitive)
    (value : Str) : Str :=
  replaceValues arranged.values (sub (assignment auditWords) (plus isValue) protectedValue value)

example : @redactAuditText .asciiOnly _ .none (str "Token : a1, mypassword=x; API-key=\n x y") =
    str "Token : [SEGREDO PROTEGIDO], mypassword=x; API-key=\n [SEGREDO PROTEGIDO] y" := by
  decide

end Model

section Words

variable {a b words : Text.Pattern Point} {u : Str} {c : Point}

/-- What stands in a key: no white space, no separator, no mark of the placeholder. -/
def isKeyPoint (c : Point) : Bool :=
  isValue c && !isAssign c && c != .ofChar '[' && c != .ofChar ']'

/-- The language of a pattern for keys. -/
structure KeyLanguage (words : Text.Pattern Point) (L : Str → Prop) : Prop where
  spells : words.Spells L
  ne_nil : ¬L []
  points : ∀ u, L u → ∀ c ∈ u, isKeyPoint c = true

/-- The letters of the words, in lower case. -/
def keyLetters : List Char := "abcdefghijklmnopqrstuvwxyz".toList

/-- A letter of a key, in whatever case, is a character of a key. -/
theorem isKeyPoint_of_ignoringCase {l : Char} (hl : l ∈ keyLetters)
    (h : ignoringCase l c = true) : isKeyPoint c = true := by
  have hletters : ∀ l ∈ keyLetters,
      (isKeyPoint (.ofChar l) && isKeyPoint (.ofChar l.toUpper)) = true :=
    List.all_eq_true.mp (by decide)
  obtain ⟨ch, hch, hsame⟩ := exists_some h
  obtain rfl := ofChar_of_toChar hch
  rw [Regex.sameIgnoringCase, Bool.or_eq_true, Bool.or_eq_true, beq_iff_eq, beq_iff_eq,
    decide_eq_true_eq] at hsame
  obtain (rfl | rfl) | hspecial := hsame
  · exact ((Bool.and_eq_true _ _).mp (hletters _ hl)).1
  · exact ((Bool.and_eq_true _ _).mp (hletters _ hl)).2
  · simp only [List.mem_cons, Prod.mk.injEq, List.not_mem_nil, or_false] at hspecial
    obtain ⟨-, rfl⟩ | ⟨-, rfl⟩ | ⟨-, rfl⟩ | ⟨-, rfl⟩ | ⟨-, rfl⟩ := hspecial <;> decide

/-- A word is spelled in any case. -/
theorem spells_word (s : String) :
    (word s).Spells fun u => List.Forall₂ (fun l c => ignoringCase l c = true) s.toList u := by
  rw [word]
  induction s.toList with
  | nil => exact spells_empty.congr fun u => List.forall₂_nil_left_iff.symm
  | cons l ls ih =>
    refine ((spells_one (ignoringCase l)).seq ih).congr fun u => ?_
    constructor
    · rintro ⟨_, v, ⟨c, hc, rfl⟩, hv, rfl⟩
      exact .cons hc hv
    · rintro (_ | ⟨hc, hv⟩)
      exact ⟨[_], _, ⟨_, hc, rfl⟩, hv, rfl⟩

/-- A word of letters of keys is made of characters of keys. -/
theorem isKeyPoint_of_word {ls : List Char} (hls : ls ⊆ keyLetters)
    (h : List.Forall₂ (fun l c => ignoringCase l c = true) ls u) :
    ∀ c ∈ u, isKeyPoint c = true := by
  induction h with
  | nil => exact fun c hc => absurd hc List.not_mem_nil
  | cons hc _ ih =>
    obtain ⟨hl, hls⟩ := List.cons_subset.mp hls
    exact List.forall_mem_cons.mpr ⟨isKeyPoint_of_ignoringCase hl hc, ih hls⟩

/-- A word is a key. -/
theorem keyLanguage_word {s : String} (hne : s.toList ≠ []) (hs : s.toList ⊆ keyLetters) :
    ∃ L, KeyLanguage (word s) L :=
  ⟨_, spells_word s, fun h => hne (List.forall₂_nil_right_iff.mp h),
    fun _ => isKeyPoint_of_word hs⟩

/-- So is the API key, with what may stand in the middle. -/
theorem keyLanguage_apiKeyWord : ∃ L, KeyLanguage apiKeyWord L := by
  refine ⟨_, (spells_word "api").seq (((spells_one _).alt spells_empty).seq
    ((spells_word "key").seq spells_empty)), ?_, ?_⟩
  · rintro ⟨u, v, hu, -, huv⟩
    obtain ⟨rfl, -⟩ := List.append_eq_nil_iff.mp huv.symm
    cases hu
  · rintro _ ⟨u, _, hu, ⟨v, _, hv, ⟨w, _, hw, rfl, rfl⟩, rfl⟩, rfl⟩ c hc
    simp only [List.append_nil, List.mem_append] at hc
    obtain hc | hc | hc := hc
    · exact isKeyPoint_of_word (by decide) hu c hc
    · obtain ⟨d, hd, rfl⟩ | rfl := hv
      · obtain rfl := List.mem_singleton.mp hc
        rw [Bool.or_eq_true, beq_iff_eq, beq_iff_eq] at hd
        obtain rfl | rfl := hd <;> decide
      · exact absurd hc List.not_mem_nil
    · exact isKeyPoint_of_word (by decide) hw c hc

/-- Two kinds of keys are one. -/
theorem KeyLanguage.alt {K L : Str → Prop} (ha : KeyLanguage a K) (hb : KeyLanguage b L) :
    KeyLanguage (.alt a b) fun u => K u ∨ L u where
  spells := ha.spells.alt hb.spells
  ne_nil := fun h => h.elim ha.ne_nil hb.ne_nil
  points := fun u h => h.elim (ha.points u) (hb.points u)

/-- So are many. -/
theorem keyLanguage_any {rs : List (Text.Pattern Point)} (ha : ∃ L, KeyLanguage a L)
    (hrs : ∀ r ∈ rs, ∃ L, KeyLanguage r L) : ∃ L, KeyLanguage (any a rs) L := by
  rw [Pattern.any]
  induction rs generalizing a with
  | nil => exact ha
  | cons r rs ih =>
    obtain ⟨hr, hrs⟩ := List.forall_mem_cons.mp hrs
    obtain ⟨K, hK⟩ := ha
    obtain ⟨L, hL⟩ := hr
    exact ih ⟨_, hK.alt hL⟩ hrs

/-- **The words of the source are keys.** -/
theorem keyLanguage_auditWords : ∃ L, KeyLanguage auditWords L := by
  refine keyLanguage_any (keyLanguage_word (by decide) (by decide)) ?_
  simp only [List.forall_mem_cons, List.not_mem_nil, false_implies, implies_true, and_true]
  exact ⟨keyLanguage_word (by decide) (by decide), keyLanguage_word (by decide) (by decide),
    keyLanguage_word (by decide) (by decide), keyLanguage_word (by decide) (by decide),
    keyLanguage_word (by decide) (by decide), keyLanguage_word (by decide) (by decide),
    keyLanguage_word (by decide) (by decide), keyLanguage_apiKeyWord⟩

end Words

section Assignment

/-- A run of a class and something else: where the run ends is told by the text. -/
theorem run_unique {p : Point → Bool} {u u' s s' : Str} {c c' : Point}
    (hu : ∀ d ∈ u, p d = true) (hu' : ∀ d ∈ u', p d = true) (hc : p c = false) (hc' : p c' = false)
    (h : u ++ c :: s = u' ++ c' :: s') : u = u' ∧ c = c' ∧ s = s' := by
  have htake := congrArg (List.takeWhile p) h
  rw [List.takeWhile_append_of_pos hu, List.takeWhile_append_of_pos hu',
    List.takeWhile_cons_of_neg (by simp [hc]), List.takeWhile_cons_of_neg (by simp [hc']),
    List.append_nil, List.append_nil] at htake
  subst htake
  obtain ⟨rfl, rfl⟩ := List.cons.inj (List.append_cancel_left h)
  exact ⟨rfl, rfl, rfl⟩

/-- What assigns is no white space. -/
theorem isSpace_of_isAssign {c : Point} (h : isAssign c = true) : c.isSpace = false := by
  rw [isAssign, Bool.or_eq_true, beq_iff_eq, beq_iff_eq] at h
  obtain rfl | rfl := h <;> decide

/-- A character of a value is no white space. -/
theorem isSpace_of_isValue {c : Point} (h : isValue c = true) : c.isSpace = false := by
  simp only [isValue, Bool.and_eq_true, Bool.not_eq_true'] at h
  exact h.1.1

/-- A key ends where white space or a separator follows. -/
theorem isKeyPoint_head {space : Str} {c : Point} (hspace : Str.IsBlank space)
    (hc : isAssign c = true) : ∀ d ∈ (space ++ [c]).head?, isKeyPoint d = false := by
  intro d hd
  cases space with
  | nil =>
    obtain rfl := Option.some.inj hd
    simp [isKeyPoint, hc]
  | cons e space =>
    obtain rfl := Option.some.inj hd
    simp [isKeyPoint, isValue, hspace e List.mem_cons_self]

variable [Alphanumeric] {words : Text.Pattern Point} {L : Str → Prop} {before : Option Point}
  {keep keep' t rest rest' : Str} {v v' : Point}

/-- A word character. -/
def isWordPoint (c : Point) : Bool := Alphanumeric.isAlnum c || c == .ofChar '_'

/-- What is kept of an assignment, after some character. -/
structure IsKept (L : Str → Prop) (before : Option Point) (keep : Str) : Prop where
  parts : ∃ key space c space', keep = key ++ (space ++ c :: space') ∧ L key ∧ Str.IsBlank space ∧
    isAssign c = true ∧ Str.IsBlank space' ∧
    xor (before.any isWordPoint) (key.head?.any isWordPoint) = true ∧
    xor ((lastOr none key).any isWordPoint) ((space ++ [c]).head?.any isWordPoint) = true

/-- An assignment is found where the key and the sign were. -/
theorem reaches_assignment (hL : KeyLanguage words L) {y : Place Point} :
    (assignment words).Reaches (before, t) y ↔
      ∃ keep rest, IsKept L before keep ∧ t = keep ++ rest ∧ y = (lastOr before keep, rest) := by
  have hhead {key : Str} (hkey : L key) (s : Str) : (key ++ s).head? = key.head? := by
    obtain ⟨c, key, rfl⟩ := List.exists_cons_of_ne_nil (show key ≠ [] by
      rintro rfl
      exact hL.ne_nil hkey)
    rfl
  have hsecond (space space' : Str) (c : Point) : (space ++ c :: space').head? =
      (space ++ [c]).head? := by cases space <;> rfl
  constructor
  · rintro ⟨_, ⟨hstart, rfl⟩, y₁, h₁, _, ⟨hend, rfl⟩, y₂, h₂, y₃, h₃, y₄, h₄, rfl⟩
    obtain ⟨key, s₁, hkey, rfl, rfl⟩ := (hL.spells _ _ _).mp h₁
    obtain ⟨space, s₂, hspace, rfl, rfl⟩ := (spells_class _ _ _ _).mp h₂
    obtain ⟨_, s₃, ⟨c, hc, rfl⟩, rfl, rfl⟩ := (spells_one _ _ _ _).mp h₃
    obtain ⟨space', rest, hspace', rfl, rfl⟩ := (spells_class _ _ _ _).mp h₄
    have hne : key ≠ [] := by
      rintro rfl
      exact hL.ne_nil hkey
    refine ⟨key ++ (space ++ c :: space'), rest, ⟨key, space, c, space', rfl, hkey, hspace, hc,
      hspace', ?_, ?_⟩, by simp, by simp [lastOr_append]⟩
    · rwa [hhead hkey] at hstart
    · rw [lastOr_of_ne_nil hne] at hend
      have hnext : (space ++ ([c] ++ (space' ++ rest))).head? = (space ++ [c]).head? := hsecond _ _ _
      rwa [hnext] at hend
  · rintro ⟨_, rest, ⟨key, space, c, space', rfl, hkey, hspace, hc, hspace', hstart, hend⟩, rfl, rfl⟩
    have hne : key ≠ [] := by
      rintro rfl
      exact hL.ne_nil hkey
    refine ⟨_, ⟨?_, rfl⟩, (lastOr before key, space ++ c :: space' ++ rest),
      (hL.spells _ _ _).mpr ⟨key, _, hkey, by simp, rfl⟩, _, ⟨?_, rfl⟩,
      (_, c :: space' ++ rest), (spells_class _ _ _ _).mpr ⟨space, _, hspace, by simp, rfl⟩,
      (some c, space' ++ rest), (spells_one _ _ _ _).mpr ⟨[c], _, ⟨c, hc, rfl⟩, rfl, rfl⟩, _,
      (spells_class _ _ _ _).mpr ⟨space', rest, hspace', rfl, rfl⟩, ?_⟩
    · rwa [List.append_assoc, hhead hkey]
    · rw [lastOr_of_ne_nil hne, List.append_assoc]
      have hnext : (space ++ (c :: space' ++ rest)).head? = (space ++ [c]).head? := hsecond _ _ _
      rwa [hnext]
    · change _ = _
      simp [lastOr_append]

/-- **What is kept is told by the text.** -/
theorem isKept_unique (hL : KeyLanguage words L) (hkeep : IsKept L before keep)
    (hkeep' : IsKept L before keep') (hv : isValue v = true) (hv' : isValue v' = true)
    (h : keep ++ v :: rest = keep' ++ v' :: rest') : keep = keep' := by
  obtain ⟨key, space, c, last, rfl, hkey, hspace, hc, hlast, -⟩ := hkeep
  obtain ⟨key', space', c', last', rfl, hkey', hspace', hc', hlast', -⟩ := hkeep'
  have hsplit {space : Str} {c : Point} (hspace : Str.IsBlank space) (hc : isAssign c = true)
      (t : Str) : ∃ d s, space ++ c :: t = d :: s ∧ isKeyPoint d = false := by
    cases space with
    | nil => exact ⟨c, _, rfl, isKeyPoint_head hspace hc c rfl⟩
    | cons e space => exact ⟨e, _, rfl, isKeyPoint_head hspace hc e rfl⟩
  obtain ⟨d, s, hs, hd⟩ := hsplit hspace hc (last ++ v :: rest)
  obtain ⟨d', s', hs', hd'⟩ := hsplit hspace' hc' (last' ++ v' :: rest')
  simp only [List.append_assoc, List.cons_append] at h
  rw [hs, hs'] at h
  obtain ⟨rfl, rfl, rfl⟩ := run_unique (hL.points _ hkey) (hL.points _ hkey') hd hd' h
  rw [← hs'] at hs
  obtain ⟨rfl, rfl, hrest⟩ := run_unique hspace hspace' (isSpace_of_isAssign hc)
    (isSpace_of_isAssign hc') hs
  obtain ⟨rfl, -, -⟩ := run_unique hlast hlast' (isSpace_of_isValue hv) (isSpace_of_isValue hv')
    hrest
  rfl

/-- Nothing is found where no key, separator and value stand. -/
theorem found_assignment_eq_none (hL : KeyLanguage words L) :
    found (assignment words) (plus isValue) (before, t) = none ↔
      ∀ keep v rest, IsKept L before keep → t = keep ++ v :: rest → isValue v = false := by
  rw [found, run_eq_none]
  constructor
  · rintro h keep v rest hkeep rfl
    by_contra hv
    rw [Bool.not_eq_false] at hv
    have hnone := h _ ((reaches_assignment hL).mpr ⟨keep, v :: rest, hkeep, rfl, rfl⟩)
    rw [run_plus_of_accepting (fun z => Option.some_ne_none _) hv] at hnone
    cases hnone
  · intro h y hy
    obtain ⟨keep, rest, hkeep, rfl, rfl⟩ := (reaches_assignment hL).mp hy
    refine run_eq_none.mpr fun z hz => ?_
    obtain ⟨u, s, ⟨hne, hu⟩, rfl, -⟩ := (spells_plus isValue _ _ _).mp hz
    obtain ⟨v, u, rfl⟩ := List.exists_cons_of_ne_nil hne
    have hv := hu v List.mem_cons_self
    rw [h keep v (u ++ s) hkeep rfl] at hv
    cases hv

/-- **What is found is the assignment that stands there,** its value as long as it goes on. -/
theorem found_assignment (hL : KeyLanguage words L) (hkeep : IsKept L before keep)
    (hv : isValue v = true) (rest : Str) :
    found (assignment words) (plus isValue) (before, keep ++ v :: rest) =
      some (keep.length, (keep ++ (v :: rest).takeWhile isValue).length) := by
  obtain ⟨r, hr⟩ := Option.ne_none_iff_exists'.mp fun hnone => by
    have hfalse := (found_assignment_eq_none hL).mp hnone keep v rest hkeep rfl
    rw [hv] at hfalse
    cases hfalse
  obtain ⟨y, hy, hplus⟩ := exists_of_run hr
  obtain ⟨keep', rest', hkeep', htext, rfl⟩ := (reaches_assignment hL).mp hy
  obtain ⟨z, hz, -⟩ := exists_of_run hplus
  obtain ⟨u, s, ⟨hne, hu⟩, rfl, -⟩ := (spells_plus isValue _ _ _).mp hz
  obtain ⟨v', u, rfl⟩ := List.exists_cons_of_ne_nil hne
  have hv' := hu v' List.mem_cons_self
  obtain rfl := isKept_unique hL hkeep hkeep' hv hv' htext
  rw [← List.append_cancel_left htext,
    run_plus_of_accepting (fun z => Option.some_ne_none _) hv] at hplus
  have hlength : ((v :: rest).takeWhile isValue).length + ((v :: rest).dropWhile isValue).length =
      (v :: rest).length := by rw [← List.length_append, List.takeWhile_append_dropWhile]
  rw [hr, ← hplus]
  simp only [List.length_append, Option.some.injEq, Prod.mk.injEq]
  omega

/-- What a match of the substitution is: what is kept, a value, and no more of the value. -/
theorem isKept_of_found {kept dropped : Str} (hL : KeyLanguage words L)
    (h : found (assignment words) (plus isValue) (before, kept ++ dropped ++ t) =
      some (kept.length, (kept ++ dropped).length)) :
    IsKept L before kept ∧ (∃ v value, dropped = v :: value ∧ isValue v = true) ∧
      ∀ c ∈ t.head?, isValue c = false := by
  obtain ⟨y, hy, hplus⟩ := exists_of_run h
  obtain ⟨keep, rest, hkeep, htext, rfl⟩ := (reaches_assignment hL).mp hy
  obtain ⟨z, hz, -⟩ := exists_of_run hplus
  obtain ⟨u, s, ⟨hne, hu⟩, rfl, -⟩ := (spells_plus isValue _ _ _).mp hz
  obtain ⟨v, u, rfl⟩ := List.exists_cons_of_ne_nil hne
  have hv := hu v List.mem_cons_self
  rw [htext] at h
  obtain ⟨hkept, hboth⟩ :=
    Prod.mk.inj (Option.some.inj ((found_assignment hL hkeep hv _).symm.trans h))
  rw [List.append_assoc] at htext
  obtain ⟨rfl, hrest⟩ := List.append_inj htext hkept.symm
  have hdropped : dropped = (v :: (u ++ s)).takeWhile isValue := by
    simp only [List.length_append, Nat.add_left_cancel_iff] at hboth
    have hprefix : (v :: (u ++ s)).takeWhile isValue <+: dropped ++ t := by
      rw [hrest]
      exact List.takeWhile_prefix _
    exact ((List.prefix_of_prefix_length_le hprefix (List.prefix_append _ _) hboth.le).eq_of_length
      hboth).symm
  have ht : t = (v :: (u ++ s)).dropWhile isValue := by
    have hall : (v :: (u ++ s)).takeWhile isValue ++ (v :: (u ++ s)).dropWhile isValue =
        dropped ++ t := by rw [List.takeWhile_append_dropWhile, hrest, List.cons_append]
    rw [← hdropped] at hall
    exact (List.append_cancel_left hall).symm
  refine ⟨hkeep, ⟨v, (u ++ s).takeWhile isValue, ?_, hv⟩, fun c hc => ?_⟩
  · rw [hdropped, List.takeWhile_cons_of_pos hv]
  · have hhead := List.head?_dropWhile_not isValue (v :: (u ++ s))
    rw [← ht, hc] at hhead
    exact hhead

/-- How the assignments of a text are rewritten. -/
abbrev Redacted (words : Text.Pattern Point) : Option Point → Str → Str → Prop :=
  Rewritten (found (assignment words) (plus isValue)) protectedValue

/-- What is substituted is redacted. -/
theorem redacted_sub (words : Text.Pattern Point) (t : Str) :
    Redacted words none t (sub (assignment words) (plus isValue) protectedValue t) :=
  rewritten_substitute _ (found_bounds (spells_plus isValue) fun hnil => hnil.1 rfl) none t

end Assignment

section Authorization

variable {sensitive : List Str} {key keep sep scheme blank credential following t : Str}
  {before before' : Option Point} {v : Point}

variable [Alphanumeric]

/-- What has no separator in it stays, and what stands after it: the value of an assignment does
not start there. -/
theorem Redacted.keeps {words : Text.Pattern Point} {L : Str → Prop} {before : Option Point}
    {t out w rest : Str} {c : Point} (hL : KeyLanguage words L) (h : Redacted words before t out)
    (hw : ∀ d ∈ w, isAssign d = false) (ht : t = w ++ c :: rest) :
    ∃ rest', out = w ++ c :: rest' := by
  induction h generalizing w with
  | nil => simp at ht
  | @same before d t out _ _ ih =>
    cases w with
    | nil =>
      obtain ⟨rfl, -⟩ := List.cons.inj ht
      exact ⟨out, rfl⟩
    | cons e w =>
      obtain ⟨rfl, htail⟩ := List.cons.inj ht
      obtain ⟨rest', rfl⟩ := ih (List.forall_mem_cons.mp hw).2 htail
      exact ⟨rest', rfl⟩
  | @hit before kept dropped t out hfound _ _ _ =>
    obtain ⟨⟨key, space, e, space', rfl, -, -, he, -⟩, -⟩ := isKept_of_found hL hfound
    have hlong (s : Str) : w ≠ key ++ (space ++ e :: space') ++ s := by
      rintro rfl
      have hfalse := hw e (by simp)
      rw [he] at hfalse
      cases hfalse
    rw [List.append_assoc] at ht
    obtain ⟨s, hs, -⟩ | ⟨s, hs, hrest⟩ := List.append_eq_append_iff.mp ht
    · exact absurd hs (hlong s)
    · cases s with
      | nil => exact absurd (by rw [hs, List.append_nil, List.append_nil]) (hlong [])
      | cons d s =>
        obtain ⟨rfl, -⟩ := List.cons.inj hrest
        exact ⟨s ++ protectedValue ++ out, by simp [hs]⟩

end Authorization

section Header

end Header

end PalworldManager
