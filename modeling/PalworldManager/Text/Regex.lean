/-
# Patterns

The regular expressions of the module `re`, as far as the program uses them, and
whether one matches.  A match starts at a place in a text, which is what stands
before it and what follows; `Regex.ends` lists the places where it may end.  A
star goes on only after an iteration that consumed something, so that the list is
finite.

The source asks of these patterns only whether there is a match, so the order in
which the engine would try them does not matter.
-/

import PalworldManager.Text.Chars

namespace Text

/-- A pattern over characters. -/
inductive Regex where
  | empty
  | char (p : Char → Bool)
  | seq (a b : Regex)
  | alt (a b : Regex)
  | star (a : Regex)
  | boundary (isWord : Char → Bool)

namespace Regex

/-- A place in a text: the character before it, if any, and the rest. -/
abbrev Place := Option Char × List Char

/-- The places where a star of a step may end, in at most `n` iterations. -/
def iterate (step : Place → List Place) : ℕ → Place → List Place
  | 0, x => [x]
  | n + 1, x =>
      x :: ((step x).filter fun y => y.2.length < x.2.length).flatMap (iterate step n)

/-- The places where a match that starts at `x` may end. -/
def ends : Regex → Place → List Place
  | .empty, x => [x]
  | .char p, (_, c :: t) => if p c then [(some c, t)] else []
  | .char _, (_, []) => []
  | .seq a b, x => (a.ends x).flatMap b.ends
  | .alt a b, x => a.ends x ++ b.ends x
  | .star a, x => iterate a.ends x.2.length x
  | .boundary isWord, x => if xor (x.1.any isWord) (x.2.head?.any isWord) then [x] else []

/-- `re.fullmatch`. -/
def fullmatch (r : Regex) (t : List Char) : Bool :=
  (r.ends (none, t)).any fun x => x.2.isEmpty

/-- `re.search`, from a place on. -/
def searchFrom (r : Regex) : Option Char → List Char → Bool
  | p, [] => !(r.ends (p, [])).isEmpty
  | p, c :: t => !(r.ends (p, c :: t)).isEmpty || r.searchFrom (some c) t

/-- `re.search`. -/
def search (r : Regex) (t : List Char) : Bool := r.searchFrom none t

/-- The characters that a lower-case letter of a pattern stands for under
`re.IGNORECASE`. -/
def sameIgnoringCase (l c : Char) : Bool :=
  c == l || c == l.toUpper ||
    (l, c) ∈ [('i', 'İ'), ('i', 'ı'), ('k', '\u212a'), ('s', 'ſ'), ('í', 'Í')]

/-- A text of a pattern under `re.IGNORECASE`, written in lower case. -/
def lit (s : String) : Regex :=
  s.toList.foldr (fun l r => .seq (.char (sameIgnoringCase l)) r) .empty

/-- A text of a pattern. -/
def exact (s : String) : Regex :=
  s.toList.foldr (fun l r => .seq (.char (· == l)) r) .empty

/-- `\b`: exactly one side is a word character. -/
def wordBoundary [Unicode] : Regex := .boundary fun c => Unicode.isAlnum c || c == '_'

/-- One pattern after another. -/
def cat (rs : List Regex) : Regex := rs.foldr .seq .empty

/-- One of several patterns. -/
def any (r : Regex) (rs : List Regex) : Regex := rs.foldl .alt r

/-- `r?`. -/
def opt (r : Regex) : Regex := .alt r .empty

/-- `r{n}`. -/
def times (n : ℕ) (r : Regex) : Regex := cat (List.replicate n r)

/-- `r{n,}`. -/
def atLeast (n : ℕ) (r : Regex) : Regex := cat [times n r, .star r]

/-- `r{0,n}`. -/
def atMost : ℕ → Regex → Regex
  | 0, _ => .empty
  | n + 1, r => opt (.seq r (atMost n r))

/-- `\s*`. -/
def spaces : Regex := .star (.char isSpace)

/-- `[^\r\n]*`. -/
def restOfLine : Regex := .star (.char fun c => c != '\r' && c != '\n')

section Within

variable {P : Char → Prop} {a b r : Regex}

/-- Every character that the pattern can consume meets a condition. -/
def Within (P : Char → Prop) : Regex → Prop
  | .empty | .boundary _ => True
  | .char p => ∀ c, p c = true → P c
  | .seq a b | .alt a b => a.Within P ∧ b.Within P
  | .star a => a.Within P

/-- From one place to another over characters that meet a condition. -/
def Passes (P : Char → Prop) (x y : Place) : Prop := ∃ t, x.2 = t ++ y.2 ∧ ∀ c ∈ t, P c

/-- A place is passed to from itself, past nothing. -/
theorem Passes.refl (x : Place) : Passes P x x := ⟨[], rfl, by simp⟩

/-- What is passed one after the other is passed in one. -/
theorem Passes.trans {x y z : Place} (h : Passes P x y) (h' : Passes P y z) : Passes P x z := by
  obtain ⟨t, ht, hP⟩ := h
  obtain ⟨t', ht', hP'⟩ := h'
  refine ⟨t ++ t', by rw [ht, ht', List.append_assoc], fun c hc => ?_⟩
  exact (List.mem_append.mp hc).elim (hP c) (hP' c)

/-- Steps that pass only such characters pass only such characters, repeated. -/
theorem passes_iterate {step : Place → List Place} (hstep : ∀ x, ∀ y ∈ step x, Passes P x y)
    (n : ℕ) (x : Place) : ∀ y ∈ iterate step n x, Passes P x y := by
  induction n generalizing x with
  | zero =>
    intro y hy
    obtain rfl : y = x := by simpa [iterate] using hy
    exact .refl y
  | succ n ih =>
    intro y hy
    rw [iterate, List.mem_cons, List.mem_flatMap] at hy
    rcases hy with rfl | ⟨z, hz, hy⟩
    · exact .refl y
    · exact (hstep x z (List.mem_of_mem_filter hz)).trans (ih z y hy)

/-- An expression within a class passes only characters of the class. -/
theorem Within.passes (h : r.Within P) (x : Place) : ∀ y ∈ r.ends x, Passes P x y := by
  induction r generalizing x with
  | empty =>
    intro y hy
    obtain rfl : y = x := by simpa [ends] using hy
    exact .refl y
  | char p =>
    obtain ⟨before, text⟩ := x
    cases text with
    | nil => simp [ends]
    | cons c t =>
      intro y hy
      rw [ends] at hy
      split_ifs at hy with hp
      · obtain rfl : y = (some c, t) := by simpa using hy
        exact ⟨[c], rfl, by simpa using h c hp⟩
      · simp at hy
  | seq a b iha ihb =>
    intro y hy
    rw [ends, List.mem_flatMap] at hy
    obtain ⟨z, hz, hy⟩ := hy
    exact (iha h.1 x z hz).trans (ihb h.2 z y hy)
  | alt a b iha ihb =>
    intro y hy
    rw [ends, List.mem_append] at hy
    exact hy.elim (iha h.1 x y) (ihb h.2 x y)
  | star a ih => exact passes_iterate (ih h) _ x
  | boundary isWord =>
    intro y hy
    rw [ends] at hy
    split_ifs at hy
    · obtain rfl : y = x := by simpa using hy
      exact .refl y
    · simp at hy

/-- **A text that a pattern matches consists of characters the pattern knows.** -/
theorem Within.of_fullmatch (h : r.Within P) {t : List Char} (hm : r.fullmatch t = true) :
    ∀ c ∈ t, P c := by
  obtain ⟨y, hy, hempty⟩ := List.any_eq_true.mp hm
  obtain ⟨u, hu, hP⟩ := h.passes _ y hy
  obtain rfl : t = u := by simpa [List.isEmpty_iff.mp hempty] using hu
  exact hP

/-- A class is within a larger one. -/
theorem within_char {p : Char → Bool} (h : ∀ c, p c = true → P c) : (Regex.char p).Within P := h

/-- A concatenation is within a class if its parts are. -/
theorem within_cat {rs : List Regex} (h : ∀ r ∈ rs, r.Within P) : (cat rs).Within P := by
  induction rs with
  | nil => trivial
  | cons r rs ih =>
    exact ⟨h r (List.mem_cons_self ..), ih fun r' hr' => h r' (List.mem_cons_of_mem _ hr')⟩

/-- A literal is within a class if its characters are in it. -/
theorem within_exact {s : String} (h : ∀ c ∈ s.toList, P c) : (exact s).Within P := by
  rw [exact]
  revert h
  induction s.toList with
  | nil => exact fun _ => trivial
  | cons l t ih =>
    intro h
    refine ⟨fun c hc => ?_, ih fun c hc => h c (List.mem_cons_of_mem _ hc)⟩
    obtain rfl : c = l := by simpa using hc
    exact h c (List.mem_cons_self ..)

/-- So is a repetition of fixed length. -/
theorem within_times (n : ℕ) (h : r.Within P) : (times n r).Within P :=
  within_cat fun r' hr' => by rwa [List.eq_of_mem_replicate hr']

/-- So is one of a least length. -/
theorem within_atLeast (n : ℕ) (h : r.Within P) : (atLeast n r).Within P :=
  ⟨within_times n h, h, trivial⟩

attribute [irreducible] Within

end Within

section Consumes

variable {K L : List Char → Prop} {a b r : Regex}

/-- What a match consumes is in a language. -/
def Consumes (r : Regex) (L : List Char → Prop) : Prop :=
  ∀ x, ∀ y ∈ r.ends x, ∃ t, x.2 = t ++ y.2 ∧ L t

/-- What an expression consumes may be said more widely. -/
theorem Consumes.mono (h : r.Consumes K) (hK : ∀ t, K t → L t) : r.Consumes L := by
  intro x y hy
  obtain ⟨t, ht, hKt⟩ := h x y hy
  exact ⟨t, ht, hK t hKt⟩

/-- The empty expression consumes nothing. -/
theorem consumes_empty : Regex.empty.Consumes (· = []) := by
  intro x y hy
  obtain rfl : y = x := by simpa [ends] using hy
  exact ⟨[], rfl, rfl⟩

/-- A class consumes one of its characters. -/
theorem consumes_char (p : Char → Bool) : (Regex.char p).Consumes fun t => ∃ c, p c = true ∧ t = [c] := by
  rintro ⟨before, text⟩ y hy
  cases text with
  | nil => simp [ends] at hy
  | cons c t =>
    rw [ends] at hy
    split_ifs at hy with hp
    · obtain rfl : y = (some c, t) := by simpa using hy
      exact ⟨[c], rfl, c, hp, rfl⟩
    · simp at hy

/-- A sequence consumes what the first does, and then what the second does. -/
theorem Consumes.seq (ha : a.Consumes K) (hb : b.Consumes L) :
    (Regex.seq a b).Consumes fun t => ∃ u v, K u ∧ L v ∧ t = u ++ v := by
  intro x y hy
  rw [ends, List.mem_flatMap] at hy
  obtain ⟨z, hz, hy⟩ := hy
  obtain ⟨u, hu, hK⟩ := ha x z hz
  obtain ⟨v, hv, hL⟩ := hb z y hy
  exact ⟨u ++ v, by rw [hu, hv, List.append_assoc], u, v, hK, hL, rfl⟩

/-- An alternative consumes what both do. -/
theorem Consumes.alt (ha : a.Consumes L) (hb : b.Consumes L) : (Regex.alt a b).Consumes L := by
  intro x y hy
  rw [ends, List.mem_append] at hy
  exact hy.elim (ha x y) (hb x y)

/-- So does one of many. -/
theorem Consumes.any {rs : List Regex} (h : r.Consumes L) (hrs : ∀ r ∈ rs, r.Consumes L) :
    (any r rs).Consumes L := by
  rw [Regex.any]
  induction rs generalizing r with
  | nil => exact h
  | cons r' rs ih =>
    exact ih (h.alt (hrs r' List.mem_cons_self)) fun r'' hr'' => hrs r'' (List.mem_cons_of_mem _ hr'')

/-- A word, in whatever case. -/
theorem consumes_lit (s : String) :
    (lit s).Consumes fun t => List.Forall₂ (fun l c => sameIgnoringCase l c = true) s.toList t := by
  rw [lit]
  induction s.toList with
  | nil =>
    refine consumes_empty.mono ?_
    rintro t rfl
    exact .nil
  | cons l cs ih =>
    refine ((consumes_char (sameIgnoringCase l)).seq ih).mono ?_
    rintro t ⟨u, v, ⟨c, hc, rfl⟩, hv, rfl⟩
    exact .cons hc hv

/-- **A text in which a pattern is found** has a part that the pattern consumes. -/
theorem Consumes.exists_infix (h : r.Consumes L) {t : List Char} (hs : r.search t = true) :
    ∃ v, v <:+: t ∧ L v := by
  rw [search] at hs
  generalize none = before at hs
  induction t generalizing before with
  | nil =>
    obtain ⟨y, hy⟩ := List.exists_mem_of_ne_nil _ (by simpa [searchFrom] using hs)
    obtain ⟨v, hv, hL⟩ := h _ y hy
    exact ⟨v, ⟨[], y.2, hv.symm⟩, hL⟩
  | cons c t ih =>
    rw [searchFrom, Bool.or_eq_true] at hs
    rcases hs with hs | hs
    · obtain ⟨y, hy⟩ := List.exists_mem_of_ne_nil _ (by simpa using hs)
      obtain ⟨v, hv, hL⟩ := h _ y hy
      exact ⟨v, ⟨[], y.2, hv.symm⟩, hL⟩
    · obtain ⟨v, hv, hL⟩ := ih _ hs
      exact ⟨v, hv.trans (List.suffix_cons c t).isInfix, hL⟩

end Consumes

section Matches

variable {a b r : Regex} {p : Char → Bool} {t u : List Char} {n : ℕ}

/-- The texts that a pattern describes, wherever they stand. -/
inductive Matches : Regex → List Char → Prop
  | empty : Matches .empty []
  | boundary (isWord : Char → Bool) : Matches (.boundary isWord) []
  | char {p : Char → Bool} {c : Char} : p c = true → Matches (.char p) [c]
  | seq {a b : Regex} {u v : List Char} : Matches a u → Matches b v → Matches (.seq a b) (u ++ v)
  | left {a b : Regex} {u : List Char} : Matches a u → Matches (.alt a b) u
  | right {a b : Regex} {u : List Char} : Matches b u → Matches (.alt a b) u
  | done {a : Regex} : Matches (.star a) []
  | more {a : Regex} {u v : List Char} :
      Matches a u → u ≠ [] → Matches (.star a) v → Matches (.star a) (u ++ v)

/-- No boundaries: whether the pattern matches a part does not depend on its neighbours. -/
def Plain : Regex → Bool
  | .empty | .char _ => true
  | .boundary _ => false
  | .seq a b | .alt a b => a.Plain && b.Plain
  | .star a => a.Plain

/-- A bounded repetition of a plain expression is plain. -/
theorem plain_atMost (n : ℕ) (h : r.Plain = true) : (atMost n r).Plain = true := by
  induction n with
  | zero => rfl
  | succ n ih => simp [atMost, opt, Plain, h, ih]

/-- What repeated steps of an expression pass over, its star matches. -/
theorem matches_of_mem_iterate {step : Place → List Place}
    (hstep : ∀ x, ∀ y ∈ step x, ∃ t, x.2 = t ++ y.2 ∧ a.Matches t) (n : ℕ) (x : Place) :
    ∀ y ∈ iterate step n x, ∃ t, x.2 = t ++ y.2 ∧ (Regex.star a).Matches t := by
  induction n generalizing x with
  | zero =>
    intro y hy
    obtain rfl : y = x := by simpa [iterate] using hy
    exact ⟨[], rfl, .done⟩
  | succ n ih =>
    intro y hy
    rw [iterate, List.mem_cons, List.mem_flatMap] at hy
    rcases hy with rfl | ⟨z, hz, hy⟩
    · exact ⟨[], rfl, .done⟩
    · obtain ⟨hz, hlt⟩ := List.mem_filter.mp hz
      obtain ⟨u, hu, hmatch⟩ := hstep x z hz
      obtain ⟨v, hv, hstar⟩ := ih z y hy
      have hne : u ≠ [] := by
        rintro rfl
        rw [List.nil_append] at hu
        simp [hu] at hlt
      exact ⟨u ++ v, by rw [hu, hv, List.append_assoc], .more hmatch hne hstar⟩

/-- What a match consumes, the pattern describes. -/
theorem matches_of_mem_ends (r : Regex) : r.Consumes r.Matches := by
  induction r with
  | empty => exact consumes_empty.mono fun t ht => ht ▸ .empty
  | char p =>
    refine (consumes_char p).mono ?_
    rintro t ⟨c, hc, rfl⟩
    exact .char hc
  | seq a b iha ihb =>
    refine (iha.seq ihb).mono ?_
    rintro t ⟨u, v, hu, hv, rfl⟩
    exact .seq hu hv
  | alt a b iha ihb => exact (iha.mono fun _ => .left).alt (ihb.mono fun _ => .right)
  | star a ih => exact fun x => matches_of_mem_iterate ih _ x
  | boundary isWord =>
    intro x y hy
    rw [ends] at hy
    split_ifs at hy
    · obtain rfl : y = x := by simpa using hy
      exact ⟨[], rfl, .boundary isWord⟩
    · simp at hy

/-- Iterations beyond the length of the text add nothing. -/
theorem iterate_eq (step : Place → List Place) {n m : ℕ} {x : Place} (hn : x.2.length ≤ n)
    (hm : x.2.length ≤ m) : iterate step n x = iterate step m x := by
  induction n generalizing m x with
  | zero =>
    cases m with
    | zero => rfl
    | succ m =>
      have hfilter : (step x).filter (fun y => y.2.length < x.2.length) = [] := by
        refine List.filter_eq_nil_iff.mpr fun y _ => ?_
        simp only [decide_eq_true_eq]
        omega
      rw [iterate, iterate, hfilter, List.flatMap_nil]
  | succ n ih =>
    cases m with
    | zero =>
      have hfilter : (step x).filter (fun y => y.2.length < x.2.length) = [] := by
        refine List.filter_eq_nil_iff.mpr fun y _ => ?_
        simp only [decide_eq_true_eq]
        omega
      rw [iterate, iterate, hfilter, List.flatMap_nil]
    | succ m =>
      rw [iterate, iterate]
      congr 1
      refine List.flatMap_congr fun y hy => ?_
      have hlt : y.2.length < x.2.length := by simpa using (List.mem_filter.mp hy).2
      exact ih (by omega) (by omega)

/-- What a pattern without boundaries describes, it can consume wherever it stands. -/
theorem Matches.mem_ends (h : r.Matches t) (hplain : r.Plain = true) (before : Option Char)
    (rest : List Char) : ∃ c, (c, rest) ∈ r.ends (before, t ++ rest) := by
  induction h generalizing before rest with
  | empty => exact ⟨before, by simp [ends]⟩
  | boundary isWord => exact absurd hplain (by simp [Plain])
  | @char p c hc => exact ⟨some c, by simp [ends, hc]⟩
  | @seq a b u v _ _ ihu ihv =>
    rw [Plain, Bool.and_eq_true] at hplain
    obtain ⟨c, hu⟩ := ihu hplain.1 before (v ++ rest)
    obtain ⟨d, hv⟩ := ihv hplain.2 c rest
    refine ⟨d, ?_⟩
    rw [ends, List.append_assoc]
    exact List.mem_flatMap.mpr ⟨_, hu, hv⟩
  | left _ ih =>
    rw [Plain, Bool.and_eq_true] at hplain
    obtain ⟨c, hu⟩ := ih hplain.1 before rest
    exact ⟨c, by rw [ends]; exact List.mem_append_left _ hu⟩
  | right _ ih =>
    rw [Plain, Bool.and_eq_true] at hplain
    obtain ⟨c, hu⟩ := ih hplain.2 before rest
    exact ⟨c, by rw [ends]; exact List.mem_append_right _ hu⟩
  | done =>
    refine ⟨before, ?_⟩
    rw [ends]
    cases rest with
    | nil => simp [iterate]
    | cons c rest => simp [iterate]
  | @more a u v _ hne _ ihu ihv =>
    obtain ⟨c, hu⟩ := ihu hplain before (v ++ rest)
    obtain ⟨d, hv⟩ := ihv hplain c rest
    obtain ⟨k, hk⟩ : ∃ k, (u ++ v ++ rest).length = k + 1 :=
      Nat.exists_eq_succ_of_ne_zero (by simp [hne])
    have hshort : (v ++ rest).length < (u ++ (v ++ rest)).length := by
      have := List.length_pos_of_ne_nil hne
      simp only [List.length_append]
      omega
    have hlength : (v ++ rest).length ≤ k := by
      rw [List.append_assoc] at hk
      omega
    refine ⟨d, ?_⟩
    rw [ends, hk, iterate, List.append_assoc]
    refine List.mem_cons_of_mem _ (List.mem_flatMap.mpr ⟨(c, v ++ rest), ?_, ?_⟩)
    · exact List.mem_filter.mpr ⟨hu, by simpa using hshort⟩
    · rw [iterate_eq a.ends (x := (c, v ++ rest)) hlength (Nat.le_refl _)]
      exact hv

/-- **A pattern without boundaries matches the texts that it describes.** -/
theorem fullmatch_iff (hplain : r.Plain = true) : r.fullmatch t = true ↔ r.Matches t := by
  rw [fullmatch, List.any_eq_true]
  constructor
  · rintro ⟨y, hy, hempty⟩
    obtain ⟨u, hu, hmatch⟩ := matches_of_mem_ends r _ y hy
    obtain rfl : t = u := by simpa [List.isEmpty_iff.mp hempty] using hu
    exact hmatch
  · intro h
    obtain ⟨c, hc⟩ := h.mem_ends hplain none []
    exact ⟨(c, []), by simpa using hc, rfl⟩

/-- A class matches its characters. -/
@[simp]
theorem matches_char_iff : (Regex.char p).Matches t ↔ ∃ c, p c = true ∧ t = [c] := by
  constructor
  · rintro (_ | _ | hc)
    exact ⟨_, hc, rfl⟩
  · rintro ⟨c, hc, rfl⟩
    exact .char hc

/-- The empty expression matches the empty text. -/
@[simp]
theorem matches_empty_iff : Regex.empty.Matches t ↔ t = [] := by
  constructor
  · rintro ⟨⟩
    rfl
  · rintro rfl
    exact .empty

/-- A sequence matches a text of the first before one of the second. -/
theorem matches_seq_iff : (Regex.seq a b).Matches t ↔ ∃ u v, a.Matches u ∧ b.Matches v ∧ t = u ++ v := by
  constructor
  · rintro (_ | _ | _ | ⟨hu, hv⟩)
    exact ⟨_, _, hu, hv, rfl⟩
  · rintro ⟨u, v, hu, hv, rfl⟩
    exact .seq hu hv

/-- A concatenation of nothing matches the empty text. -/
theorem matches_cat_nil : (cat []).Matches t ↔ t = [] := matches_empty_iff

/-- A concatenation matches part by part. -/
theorem matches_cat_cons {rs : List Regex} :
    (cat (r :: rs)).Matches t ↔ ∃ u v, r.Matches u ∧ (cat rs).Matches v ∧ t = u ++ v :=
  matches_seq_iff

/-- One part more. -/
theorem Matches.cons {rs : List Regex} {v : List Char} (hu : r.Matches u) (hv : (cat rs).Matches v) :
    (cat (r :: rs)).Matches (u ++ v) := .seq hu hv

/-- A literal matches itself. -/
theorem matches_exact_iff {s : String} : (exact s).Matches t ↔ t = s.toList := by
  rw [exact]
  induction s.toList generalizing t with
  | nil => exact matches_empty_iff
  | cons c cs ih =>
    rw [List.foldr_cons, matches_seq_iff]
    constructor
    · rintro ⟨u, v, hu, hv, rfl⟩
      obtain ⟨d, hd, rfl⟩ := matches_char_iff.mp hu
      rw [ih.mp hv, eq_of_beq hd, List.singleton_append]
    · rintro rfl
      exact ⟨[c], cs, .char (beq_self_eq_true c), ih.mpr rfl, rfl⟩

/-- So many characters of a class. -/
theorem matches_times_char_iff :
    (times n (.char p)).Matches t ↔ t.length = n ∧ ∀ c ∈ t, p c = true := by
  rw [times]
  induction n generalizing t with
  | zero =>
    rw [List.replicate_zero, matches_cat_nil, List.length_eq_zero_iff]
    refine ⟨?_, And.left⟩
    rintro rfl
    exact ⟨rfl, fun c hc => absurd hc List.not_mem_nil⟩
  | succ n ih =>
    rw [List.replicate_succ, matches_cat_cons]
    constructor
    · rintro ⟨u, v, hu, hv, rfl⟩
      obtain ⟨c, hc, rfl⟩ := matches_char_iff.mp hu
      obtain ⟨hlength, hall⟩ := ih.mp hv
      exact ⟨by simp [hlength], List.forall_mem_cons.mpr ⟨hc, hall⟩⟩
    · rintro ⟨hlength, hall⟩
      obtain ⟨c, v, rfl⟩ := List.exists_cons_of_length_eq_add_one hlength
      obtain ⟨hc, hv⟩ := List.forall_mem_cons.mp hall
      exact ⟨[c], v, .char hc, ih.mpr ⟨by simpa using hlength, hv⟩, rfl⟩

/-- A repeated class matches the texts of its characters. -/
theorem matches_star_char_iff : (Regex.star (.char p)).Matches t ↔ ∀ c ∈ t, p c = true := by
  induction t with
  | nil => exact ⟨fun _ _ hc => absurd hc List.not_mem_nil, fun _ => .done⟩
  | cons c t ih =>
    constructor
    · intro h
      generalize htext : c :: t = u at h
      cases h with
      | done => cases htext
      | more hu hne hv =>
        obtain ⟨d, hd, rfl⟩ := matches_char_iff.mp hu
        obtain ⟨rfl, rfl⟩ := List.cons.inj htext
        exact List.forall_mem_cons.mpr ⟨hd, ih.mp hv⟩
    · intro h
      obtain ⟨hc, ht⟩ := List.forall_mem_cons.mp h
      exact .more (u := [c]) (.char hc) (List.cons_ne_nil c []) (ih.mpr ht)

/-- At least so many characters of a class. -/
theorem matches_atLeast_char_iff :
    (atLeast n (.char p)).Matches t ↔ n ≤ t.length ∧ ∀ c ∈ t, p c = true := by
  rw [atLeast, matches_cat_cons]
  simp only [matches_cat_cons, matches_cat_nil, matches_times_char_iff, matches_star_char_iff]
  constructor
  · rintro ⟨u, _, ⟨hlength, hu⟩, ⟨v, _, hv, rfl, rfl⟩, rfl⟩
    refine ⟨by simp [← hlength], fun c hc => ?_⟩
    simp only [List.append_nil] at hc
    exact (List.mem_append.mp hc).elim (hu c) (hv c)
  · rintro ⟨hlength, hall⟩
    refine ⟨t.take n, t.drop n,
      ⟨List.length_take_of_le hlength, fun c hc => hall c (List.mem_of_mem_take hc)⟩,
      ⟨t.drop n, [], fun c hc => hall c (List.mem_of_mem_drop hc), rfl, (List.append_nil _).symm⟩,
      (List.take_append_drop n t).symm⟩

/-- At most so many characters of a class. -/
theorem matches_atMost_char_iff :
    (atMost n (.char p)).Matches t ↔ t.length ≤ n ∧ ∀ c ∈ t, p c = true := by
  induction n generalizing t with
  | zero =>
    rw [atMost, matches_empty_iff, Nat.le_zero, List.length_eq_zero_iff]
    refine ⟨?_, And.left⟩
    rintro rfl
    exact ⟨rfl, fun c hc => absurd hc List.not_mem_nil⟩
  | succ n ih =>
    constructor
    · intro h
      cases h with
      | left h =>
        obtain ⟨u, v, hu, hv, rfl⟩ := matches_seq_iff.mp h
        obtain ⟨c, hc, rfl⟩ := matches_char_iff.mp hu
        obtain ⟨hlength, hall⟩ := ih.mp hv
        exact ⟨by simpa using hlength, List.forall_mem_cons.mpr ⟨hc, hall⟩⟩
      | right h =>
        obtain rfl := matches_empty_iff.mp h
        exact ⟨Nat.zero_le _, fun c hc => absurd hc List.not_mem_nil⟩
    · rintro ⟨hlength, hall⟩
      cases t with
      | nil => exact .right .empty
      | cons c t =>
        obtain ⟨hc, ht⟩ := List.forall_mem_cons.mp hall
        exact .left (.seq (u := [c]) (.char hc) (ih.mpr ⟨by simpa using hlength, ht⟩))

end Matches

end Regex

end Text
