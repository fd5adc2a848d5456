/-
# What a restore of GameUserSettings.ini keeps

The lines of a text, once redacted or merged, join to a text whose lines they are again,
unless a secret stood on a line that ends with another boundary than a line feed: that
boundary is lost, and the next line is joined to the secret.  So a file is given back, when
it is restored over itself, exactly if it has no such line and no section header with a
sensitive name in it (`mergeGenericIni_redacted_iff`).
-/

import PalworldManager.Restores.GenericMerge

namespace PalworldManager

open Text

/-- A line that starts as another does, and ends as it does or with nothing. -/
def LineKept (l l' : Line) : Prop :=
  l'.full.head? = l.full.head? ∧ (l'.ending = l.ending ∨ l'.ending = [])

section Kept

variable {l l' : Line} {ls ls' : List Line}

/-- How many characters end the lines. -/
def endings (ls : List Line) : ℕ := (ls.map fun l => l.ending.length).sum

/-- As many characters break the lines as end them. -/
theorem breaks_joinLines (h : ∀ l ∈ ls, IsLine l) : breaks (joinLines ls) = endings ls := by
  induction ls with
  | nil => rfl
  | cons l ls ih =>
    rw [joinLines_cons, breaks_append, breaks_full (h l List.mem_cons_self),
      ih fun m hm => h m (List.mem_cons_of_mem _ hm)]
    rfl

/-- A line is kept as it is. -/
theorem LineKept.refl (l : Line) : LineKept l l := ⟨rfl, .inl rfl⟩

/-- Kept lines end with no more characters than before. -/
theorem endings_le (h : List.Forall₂ LineKept ls ls') : endings ls' ≤ endings ls := by
  induction h with
  | nil => exact le_rfl
  | @cons l l' ls ls' hl _ ih =>
    have hle : l'.ending.length ≤ l.ending.length := by
      rcases hl.2 with he | he <;> rw [he]
      exact Nat.zero_le _
    rw [endings, endings, List.map_cons, List.map_cons, List.sum_cons, List.sum_cons]
    exact Nat.add_le_add hle ih

/-- With no character lost, every line ends as it did. -/
theorem ending_eq_of_endings_le (h : List.Forall₂ LineKept ls ls')
    (hle : endings ls ≤ endings ls') :
    List.Forall₂ (fun l l' => l'.ending = l.ending) ls ls' := by
  induction h with
  | nil => exact .nil
  | @cons l l' ls ls' hl hls ih =>
    have hrest := endings_le hls
    have hcons (l : Line) (ls : List Line) : endings (l :: ls) = l.ending.length + endings ls := rfl
    rw [hcons, hcons] at hle
    rcases hl.2 with he | he
    · rw [he] at hle
      exact .cons he (ih (by omega))
    · rw [he, List.length_nil] at hle
      have hnil : l.ending = [] := List.length_eq_zero_iff.mp (by omega)
      exact .cons (by rw [he, hnil]) (ih (by omega))

/-- The text of kept lines starts as it did. -/
theorem head_joinLines (h : List.Forall₂ LineKept ls ls') (hls : ∀ l ∈ ls, IsLine l) :
    (joinLines ls').head? = (joinLines ls).head? := by
  cases h with
  | nil => rfl
  | @cons l l' ls ls' hl _ =>
    have hne : l.full ≠ [] := (hls l List.mem_cons_self).full
    obtain ⟨c, t, hct⟩ := List.exists_cons_of_ne_nil hne
    have hhead := hl.1
    rw [hct, List.head?_cons] at hhead
    obtain ⟨t', hct'⟩ : ∃ t', l'.full = c :: t' := by
      cases hfull : l'.full with
      | nil =>
        rw [hfull] at hhead
        cases hhead
      | cons d t' =>
        rw [hfull, List.head?_cons, Option.some.injEq] at hhead
        exact ⟨t', by rw [hhead]⟩
    rw [joinLines_cons, joinLines_cons, hct, hct']
    rfl

/-- No carriage return comes before a line feed that it did not come before already. -/
theorem separated_of_kept (h : List.Forall₂ LineKept ls ls') (hls : ∀ l ∈ ls, IsLine l)
    (hsep : Separated ls) : Separated ls' := by
  induction h with
  | nil => trivial
  | @cons l l' ls ls' hl hrest ih =>
    have hls' : ∀ l ∈ ls, IsLine l := fun m hm => hls m (List.mem_cons_of_mem _ hm)
    refine ⟨fun hreturn => ?_, ih hls' hsep.2⟩
    rw [head_joinLines hrest hls']
    refine hsep.1 ?_
    rcases hl.2 with he | he
    · rw [← he, hreturn]
    · rw [he] at hreturn
      cases hreturn

/-- Lines that end alike end all but the last together. -/
theorem terminated_of_ending_eq (h : List.Forall₂ (fun l l' => l'.ending = l.ending) ls ls')
    (hterminated : Terminated ls) : Terminated ls' := by
  induction h with
  | nil => trivial
  | @cons l l' ls ls' hl hrest ih =>
    refine ⟨fun hnil => ?_, ih hterminated.2⟩
    obtain rfl := hterminated.1 (hl.symm.trans hnil)
    cases hrest
    rfl

end Kept

section Secrets

variable {l : Line} {k v w : List Char} {e : List Char}

/-- A line with another value is a line, and starts as it did. -/
theorem isLine_secret (h : IsLine l) (hs : genericSecret l.text = some (k, v))
    (hw : ∀ c ∈ w, isLineBreak c = false) (he : e = l.ending ∨ e = []) :
    IsLine ⟨k ++ '=' :: w, e⟩ ∧ LineKept l ⟨k ++ '=' :: w, e⟩ := by
  obtain ⟨htext, -, hsearch⟩ := genericSecret_eq_some.mp hs
  obtain ⟨c, t, rfl⟩ := List.exists_cons_of_ne_nil (ne_nil_of_search hsearch)
  refine ⟨⟨fun d hd => ?_, ?_, by simp [Line.full]⟩, ?_, he⟩
  · rcases List.mem_append.mp hd with hd | hd
    · exact h.text d (htext ▸ List.mem_append_left _ hd)
    · rcases List.mem_cons.mp hd with rfl | hd
      · decide
      · exact hw d hd
  · rcases he with rfl | rfl
    · exact h.ending
    · exact .inl rfl
  · rw [Line.full, Line.full, htext]
    rfl

/-- A secret with another value under its key. -/
theorem genericSecret_secret (hs : genericSecret l.text = some (k, v)) (w : List Char) :
    genericSecret (k ++ '=' :: w) = some (k, w) := by
  obtain ⟨-, hk, hsearch⟩ := genericSecret_eq_some.mp hs
  exact genericSecret_eq_some.mpr ⟨rfl, hk, hsearch⟩

/-- **A redacted line** is a line. -/
theorem isLine_redactedLine (h : IsLine l) :
    IsLine (redactedLine l) ∧ LineKept l (redactedLine l) := by
  rw [redactedLine]
  cases hs : genericSecret l.text with
  | none => exact ⟨h, .refl l⟩
  | some r =>
    obtain ⟨k, v⟩ := r
    have hquotes : ∀ c ∈ ['"', '"'], isLineBreak c = false := by simp [isLineBreak]
    exact isLine_secret h hs hquotes (kept_cases l)

/-- A redacted line has a secret still, and is no header. -/
theorem redactedLine_of_secret (hs : genericSecret l.text = some (k, v)) :
    genericSecret (redactedLine l).text = some (k, ['"', '"']) ∧
      isSectionLine (strip (redactedLine l).text) = false := by
  have hline : redactedLine l = ⟨k ++ ['=', '"', '"'], keptOf l⟩ := by rw [redactedLine, hs]
  rw [hline]
  refine ⟨genericSecret_secret hs ['"', '"'], ?_⟩
  have hsplit : k ++ ['=', '"', '"'] = (k ++ ['=', '"']) ++ ['"'] := by simp
  have hquote : isSpace '"' = false := by decide
  rw [isSectionLine, hsplit, getLast_strip hquote]
  simp

/-- A line without a secret is left alone. -/
theorem redactedLine_of_none (hs : genericSecret l.text = none) : redactedLine l = l := by
  rw [redactedLine, hs]

end Secrets

section Count

variable {ls : List Line}

/-- With as many lines that meet both conditions as meet the first, those meet both. -/
theorem forall_of_countP_le {p q : Line → Bool}
    (h : ls.countP p ≤ ls.countP fun l => q l && p l) : ∀ l ∈ ls, p l = true → q l = true := by
  have hall (ls : List Line) : ls.countP (fun l => q l && p l) ≤ ls.countP p ∧
      (ls.countP p ≤ ls.countP (fun l => q l && p l) → ∀ l ∈ ls, p l = true → q l = true) := by
    induction ls with
    | nil => exact ⟨le_rfl, fun _ => nofun⟩
    | cons l ls ih =>
      rw [List.countP_cons, List.countP_cons, List.forall_mem_cons]
      cases hp : p l <;> cases hq : q l <;> simp only [Bool.and_true, Bool.and_false,
        Bool.false_eq_true, if_true, if_false, false_implies, true_implies, true_and, Bool.and_self]
      · exact ⟨ih.1, ih.2⟩
      · exact ⟨ih.1, ih.2⟩
      · have hle := ih.1
        exact ⟨by omega, fun hlt => by omega⟩
      · have hle := ih.1
        exact ⟨by omega, fun hlt => ih.2 (by omega)⟩
  exact (hall ls).2 h

end Count

section SameFile

variable [Unicode] {values : List (SecretId × List Char)} {sect c : List Char} {l : Line}
  {ls : List Line}

omit [Unicode] in
/-- The redaction keeps how each line starts, and how it ends or that it ends with nothing. -/
theorem forall₂_redacted (hls : ∀ l ∈ ls, IsLine l) :
    List.Forall₂ LineKept ls (ls.map redactedLine) := by
  rw [List.forall₂_map_right_iff, List.forall₂_same]
  exact fun l hl => (isLine_redactedLine (hls l hl)).2

/-- **A merged line** is a line. -/
theorem isLine_mergedLines (hls : ∀ l ∈ ls, IsLine l)
    (hvalues : ∀ e ∈ values, ∀ c ∈ e.2, isLineBreak c = false) :
    (∀ l ∈ mergedLines values sect ls, IsLine l) ∧
      List.Forall₂ LineKept ls (mergedLines values sect ls) := by
  induction ls generalizing sect with
  | nil => exact ⟨fun l hl => absurd hl List.not_mem_nil, .nil⟩
  | cons l ls ih =>
    have hl := hls l List.mem_cons_self
    have hrest {sect} := @ih sect fun m hm => hls m (List.mem_cons_of_mem _ hm)
    rw [mergedLines]
    split_ifs
    · exact ⟨List.forall_mem_cons.mpr ⟨hl, hrest.1⟩, .cons (.refl l) hrest.2⟩
    · cases hs : genericSecret l.text with
      | none => exact ⟨List.forall_mem_cons.mpr ⟨hl, hrest.1⟩, .cons (.refl l) hrest.2⟩
      | some r =>
        obtain ⟨k, v⟩ := r
        have hvalue : ∀ c ∈ (values.lookup (secretId sect k)).getD [], isLineBreak c = false := by
          cases hlookup : values.lookup (secretId sect k) with
          | none => exact fun c hc => absurd hc List.not_mem_nil
          | some w =>
            obtain ⟨l₁, l₂, rfl, -⟩ := List.lookup_eq_some_iff.mp hlookup
            exact hvalues (secretId sect k, w) (by simp)
        obtain ⟨hline, hkept⟩ := isLine_secret hl hs hvalue (kept_cases l)
        exact ⟨List.forall_mem_cons.mpr ⟨hline, hrest.1⟩, .cons hkept hrest.2⟩

/-- No secret goes over several lines. -/
theorem isLineBreak_genericEntries (hls : ∀ l ∈ ls, IsLine l) :
    ∀ e ∈ genericEntries sect ls, ∀ c ∈ e.2, isLineBreak c = false := by
  induction ls generalizing sect with
  | nil => exact nofun
  | cons l ls ih =>
    have hl := hls l List.mem_cons_self
    have hrest {sect} := @ih sect fun m hm => hls m (List.mem_cons_of_mem _ hm)
    rw [genericEntries]
    split_ifs
    · exact hrest
    · cases hs : genericSecret l.text with
      | none => exact hrest
      | some r =>
        obtain ⟨k, v⟩ := r
        refine List.forall_mem_cons.mpr ⟨fun c hc => hl.text c ?_, hrest⟩
        rw [(genericSecret_eq_some.mp hs).1]
        exact List.mem_append_right _ (List.mem_cons_of_mem _ hc)

/-- Whether `merge_generic_ini` replaces the value on a line. -/
def isSecretLine (l : Line) : Bool :=
  !isSectionLine (strip l.text) && (genericSecret l.text).isSome

/-- As many secrets as lines with one. -/
theorem length_genericEntries (sect : List Char) (ls : List Line) :
    (genericEntries sect ls).length = ls.countP isSecretLine := by
  induction ls generalizing sect with
  | nil => rfl
  | cons l ls ih =>
    rw [genericEntries, List.countP_cons, isSecretLine]
    by_cases hsection : isSectionLine (strip l.text) = true
    · rw [if_pos hsection, ih]
      simp [hsection]
    · rw [if_neg hsection]
      cases genericSecret l.text with
      | none =>
        simp only
        rw [ih]
        simp
      | some r =>
        simp only [List.length_cons, ih]
        simp [hsection]

/-- After a redaction every line with a sensitive name counts. -/
theorem length_genericEntries_redacted (sect : List Char) (ls : List Line) :
    (genericEntries sect (ls.map redactedLine)).length =
      ls.countP fun l => (genericSecret l.text).isSome := by
  rw [length_genericEntries, List.countP_map]
  refine List.countP_congr fun l _ => ?_
  rw [Function.comp_apply, isSecretLine]
  cases hs : genericSecret l.text with
  | none =>
    rw [redactedLine_of_none hs, hs]
    simp
  | some r =>
    obtain ⟨k, v⟩ := r
    obtain ⟨hsecret, hsection⟩ := redactedLine_of_secret hs
    rw [hsecret, hsection]
    simp

/-- Lines of which none ends otherwise once it is redacted, and none with a sensitive name is
a header. -/
def Restorable (ls : List Line) : Prop :=
  ∀ l ∈ ls, (genericSecret l.text).isSome = true →
    isSectionLine (strip l.text) = false ∧ keptOf l = l.ending

/-- The sections and keys of such lines are read as they were. -/
theorem ids_redacted (h : Restorable ls) (sect : List Char) :
    (genericEntries sect (ls.map redactedLine)).map Prod.fst =
      (genericEntries sect ls).map Prod.fst := by
  induction ls generalizing sect with
  | nil => rfl
  | cons l ls ih =>
    have hrest {sect} := @ih (fun m hm => h m (List.mem_cons_of_mem _ hm)) sect
    rw [List.map_cons, genericEntries, genericEntries]
    cases hs : genericSecret l.text with
    | none =>
      rw [redactedLine_of_none hs, hs]
      split_ifs
      · exact hrest
      · exact hrest
    | some r =>
      obtain ⟨k, v⟩ := r
      obtain ⟨hsecret, hsection⟩ := redactedLine_of_secret hs
      have hopen := (h l List.mem_cons_self (by rw [hs]; rfl)).1
      rw [hsecret, hsection, hopen]
      simp [hrest]

/-- Such lines are put together again. -/
theorem mergedLines_redacted (h : Restorable ls) (sect : List Char)
    (hvalues : ∀ e ∈ genericEntries sect ls, values.lookup e.1 = some e.2) :
    mergedLines values sect (ls.map redactedLine) = ls := by
  induction ls generalizing sect with
  | nil => rfl
  | cons l ls ih =>
    have hrest {sect} := @ih (fun m hm => h m (List.mem_cons_of_mem _ hm)) sect
    rw [genericEntries] at hvalues
    rw [List.map_cons, mergedLines]
    cases hs : genericSecret l.text with
    | none =>
      rw [hs] at hvalues
      rw [redactedLine_of_none hs, hs]
      split_ifs at hvalues ⊢
      · rw [hrest hvalues]
      · rw [hrest hvalues]
    | some r =>
      obtain ⟨k, v⟩ := r
      obtain ⟨hsecret, hsection⟩ := redactedLine_of_secret hs
      obtain ⟨hopen, hkept⟩ := h l List.mem_cons_self (by rw [hs]; rfl)
      rw [hs, hopen, if_neg Bool.false_ne_true, List.forall_mem_cons] at hvalues
      have hending : keptOf (redactedLine l) = l.ending := by
        have hline : redactedLine l = ⟨k ++ ['=', '"', '"'], keptOf l⟩ := by rw [redactedLine, hs]
        rw [hline, hkept, keptOf]
        rw [keptOf] at hkept
        exact hkept
      have hline : (⟨k ++ '=' :: v, l.ending⟩ : Line) = l := by
        rw [← (genericSecret_eq_some.mp hs).1]
      rw [hsecret, hsection, if_neg Bool.false_ne_true]
      simp only [hvalues.1, Option.getD_some, hending, hline]
      rw [hrest hvalues.2]

omit [Unicode] in
/-- What `keptOf` keeps is all there is at the end of some lines. -/
theorem keptOf_eq_iff : keptOf l = l.ending ↔
    l.ending = [] ∨ l.ending = ['\n'] ∨ l.ending = ['\r', '\n'] := by
  rw [keptOf]
  split_ifs with h
  · exact ⟨fun _ => .inr h.symm, fun _ => rfl⟩
  · rw [not_or] at h
    simp [h.1, h.2, eq_comm]

/-- **To redact GameUserSettings.ini and to merge it over the same file** gives the file back
exactly if each line with a sensitive name is no header, and ends with a line feed or with
the file. -/
theorem mergeGenericIni_redacted_iff (h : IsGenericIni c) :
    mergeGenericIni (redactGenericIni c) c = .ok c ↔
      ∀ l ∈ splitLines c, (genericSecret l.text).isSome = true →
        isSectionLine (strip l.text) = false ∧
          (l.ending = [] ∨ l.ending = ['\n'] ∨ l.ending = ['\r', '\n']) := by
  have hlines := isLine_splitLines c
  have hkept := forall₂_redacted hlines
  have hredacted : ∀ l ∈ (splitLines c).map redactedLine, IsLine l := by
    rw [List.forall_mem_map]
    exact fun l hl => (isLine_redactedLine (hlines l hl)).1
  have hsplit : splitLines (redactGenericIni c) = coalesce ((splitLines c).map redactedLine) := by
    rw [redactGenericIni_eq]
    exact splitLines_joinLines hredacted (separated_of_kept hkept hlines (separated_splitLines c))
  have hnobreak : ∀ e ∈ genericSecrets c, ∀ d ∈ e.2, isLineBreak d = false :=
    isLineBreak_genericEntries hlines
  rw [mergeGenericIni_eq_ok]
  constructor
  · rintro ⟨-, hunique, hids, hjoin, -⟩
    -- no character that ends a line is lost, neither by the redaction nor by the merge
    obtain ⟨hmerged, hmergedKept⟩ :=
      @isLine_mergedLines _ _ [] _ (isLine_splitLines (redactGenericIni c)) hnobreak
    have hbreaks : breaks c = endings (splitLines c) := by
      conv_lhs => rw [← joinLines_splitLines c]
      exact breaks_joinLines hlines
    have hbreaksRedacted : breaks (redactGenericIni c) =
        endings ((splitLines c).map redactedLine) := by
      rw [redactGenericIni_eq, breaks_joinLines hredacted]
    have hbreaksSplit : breaks (redactGenericIni c) = endings (splitLines (redactGenericIni c)) := by
      conv_lhs => rw [← joinLines_splitLines (redactGenericIni c)]
      exact breaks_joinLines (isLine_splitLines _)
    have hle := endings_le hmergedKept
    rw [← breaks_joinLines hmerged, ← hjoin, ← hbreaksSplit, hbreaks, hbreaksRedacted] at hle
    have hendings := ending_eq_of_endings_le hkept hle
    have hterminated := coalesce_of_terminated (terminated_of_ending_eq hendings (terminated_splitLines c))
    rw [hterminated] at hsplit
    -- a header with a sensitive name is one secret too many
    have hcount := (List.subperm_of_subset hunique hids).length_le
    rw [List.length_map, List.length_map, genericSecrets, hsplit, length_genericEntries_redacted,
      length_genericEntries] at hcount
    have hopen := forall_of_countP_le hcount
    intro l hl hsome
    refine ⟨by simpa using hopen l hl hsome, ?_⟩
    obtain ⟨⟨k, v⟩, hs⟩ := Option.isSome_iff_exists.mp hsome
    have hall : ∀ l ∈ splitLines c, (redactedLine l).ending = l.ending := by
      rwa [List.forall₂_map_right_iff, List.forall₂_same] at hendings
    have hending := hall l hl
    rw [redactedLine, hs] at hending
    exact keptOf_eq_iff.mp hending
  · intro hall
    have hrestorable : Restorable (splitLines c) := fun l hl hsome =>
      ⟨(hall l hl hsome).1, keptOf_eq_iff.mpr (hall l hl hsome).2⟩
    have hendings : List.Forall₂ (fun l l' => l'.ending = l.ending) (splitLines c)
        ((splitLines c).map redactedLine) := by
      rw [List.forall₂_map_right_iff, List.forall₂_same]
      intro l hl
      cases hs : genericSecret l.text with
      | none => rw [redactedLine_of_none hs]
      | some r =>
        rw [redactedLine, hs]
        exact (hrestorable l hl (by rw [hs]; rfl)).2
    rw [coalesce_of_terminated (terminated_of_ending_eq hendings (terminated_splitLines c))] at hsplit
    have hids : (genericSecrets (redactGenericIni c)).map Prod.fst =
        (genericSecrets c).map Prod.fst := by
      rw [genericSecrets, hsplit]
      exact ids_redacted hrestorable []
    refine ⟨h, by rw [hids]; exact h.unique, by rw [hids]; exact fun _ hid => hid, ?_, h.size⟩
    rw [hsplit, mergedLines_redacted hrestorable [] fun e he =>
      (lookup_eq_some_iff h.unique).mpr he, joinLines_splitLines]

end SameFile

/-- A secret between two other lines, the last of which has no end. -/
theorem mergeGenericIni_redacted_iff_lines :
    @mergeGenericIni .ascii (redactGenericIni "[Server]\r\nApiToken = x\nName=a".toList)
        "[Server]\r\nApiToken = x\nName=a".toList =
      .ok "[Server]\r\nApiToken = x\nName=a".toList := by
  have hini : @IsGenericIni .ascii "[Server]\r\nApiToken = x\nName=a".toList :=
    @IsGenericIni.mk .ascii _ (by decide +kernel) (by decide +kernel) (by decide +kernel)
  exact (@mergeGenericIni_redacted_iff .ascii _ hini).mpr (by decide +kernel)

/-- A secret on a line that a carriage return ends: the next line is lost. -/
theorem mergeGenericIni_redacted_return :
    @IsGenericIni .ascii "Password=a\rNext=1\n".toList ∧
      @mergeGenericIni .ascii (redactGenericIni "Password=a\rNext=1\n".toList)
          "Password=a\rNext=1\n".toList = .ok "Password=a\n".toList ∧
      "Password=a\n".toList ≠ "Password=a\rNext=1\n".toList :=
  ⟨@IsGenericIni.mk .ascii _ (by decide +kernel) (by decide +kernel) (by decide +kernel),
    by decide +kernel, by decide +kernel⟩

end PalworldManager
