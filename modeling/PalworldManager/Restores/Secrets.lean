/-
# What a restore of GameUserSettings.ini loses

`merge_generic_ini` refuses a backup that has a secret the current file does not have, and
accepts one that lacks a secret the current file has: that secret is lost.  A secret is lost
as well where the backup has it on a line whose end is not kept, and the next line is not
empty: what the two lines join to is another value.  There is no third way
(`mergeGenericIni_keeps_iff`).

The proof of "no third way" counts.  As many secrets are read from the merged text as lines
with a secret are left in it, which are no more than the backup has, which are no more than
the current file has.  So, with none lost, all these numbers are one, and the values are
together as long as before; a line that went into the one before it would make them longer.
-/

import PalworldManager.Restores.GenericFile

namespace PalworldManager

open Text

/-- How long the value on a line is that `merge_generic_ini` replaces. -/
def secretLength (l : Line) : ℕ :=
  if isSecretLine l then ((genericSecret l.text).elim [] Prod.snd).length else 0

/-- How long the values on some lines are, together. -/
def secretLengths (ls : List Line) : ℕ := (ls.map secretLength).sum

/-- A line that nothing ends is followed by one without a text, if by any. -/
def Loose (ls : List Line) : Prop := ls.IsChain fun l m => l.ending = [] → m.text = []

section Strip

variable {t k v : List Char}

/-- Stripped, a text starts where its white space ends. -/
theorem head_strip (t : List Char) : (strip t).head? = (t.dropWhile isSpace).head? := by
  rw [strip]
  cases hdrop : t.dropWhile isSpace with
  | nil => rfl
  | cons c u =>
    have hc : isSpace c = false := by
      have hnot := List.head_dropWhile_not isSpace (l := t) (by simp [hdrop])
      simpa [hdrop] using hnot
    rw [List.reverse_cons, List.dropWhile_append]
    split_ifs
    · rw [List.dropWhile_cons_of_neg (by simp [hc])]
      rfl
    · rw [List.reverse_append]
      rfl

/-- A key and a value, both not blank, keep their own ends once they are stripped. -/
theorem strip_secret (hk : strip k ≠ []) (hv : strip v ≠ []) :
    strip (k ++ '=' :: v) =
      k.dropWhile isSpace ++ '=' :: (v.reverse.dropWhile isSpace).reverse := by
  have hnil : k.dropWhile isSpace ≠ [] := by
    intro hnil
    rw [strip, hnil] at hk
    exact hk rfl
  have hlast : v.reverse.dropWhile isSpace ≠ [] := by
    intro hlast
    have hall : ∀ c ∈ v, isSpace c = true := fun c hc =>
      List.dropWhile_eq_nil_iff.mp hlast c (List.mem_reverse.mpr hc)
    rw [strip, List.dropWhile_eq_nil_iff.mpr hall] at hv
    exact hv rfl
  have hsplit : (k.dropWhile isSpace ++ '=' :: v).reverse =
      v.reverse ++ '=' :: (k.dropWhile isSpace).reverse := by simp
  rw [strip, List.dropWhile_append, if_neg (by simpa using hnil), hsplit, List.dropWhile_append,
    if_neg (by simpa using hlast)]
  simp

/-- Whether a secret's line is a header: its key opens the bracket, and its value closes it. -/
theorem isSectionLine_secret (hk : strip k ≠ []) (hv : strip v ≠ []) :
    isSectionLine (strip (k ++ '=' :: v)) =
      ((strip k).head? == some '[' &&
        ('=' :: (v.reverse.dropWhile isSpace).reverse).getLast? == some ']') := by
  have hhead : (strip (k ++ '=' :: v)).head? = (strip k).head? := by
    rw [head_strip, head_strip, List.dropWhile_append]
    split_ifs with hblank
    · have hnil : k.dropWhile isSpace = [] := by simpa using hblank
      rw [strip, hnil] at hk
      exact absurd rfl hk
    · rw [List.head?_append_of_ne_nil]
      simpa using hblank
  rw [isSectionLine, hhead, strip_secret hk hv, List.getLast?_append_of_ne_nil _ (by simp)]

end Strip

section Count

variable {l m : Line} {ls ms : List Line} {k v : List Char}

/-- A secret takes in what its line is joined to. -/
theorem secretLength_append (hl : isSecretLine l = true)
    (hm : isSecretLine ⟨l.text ++ m.text, m.ending⟩ = true) :
    secretLength ⟨l.text ++ m.text, m.ending⟩ = secretLength l + m.text.length := by
  have hsome : (genericSecret l.text).isSome = true := by
    rw [isSecretLine, Bool.and_eq_true] at hl
    exact hl.2
  obtain ⟨⟨k, v⟩, hs⟩ := Option.isSome_iff_exists.mp hsome
  obtain ⟨htext, hk, hsearch⟩ := genericSecret_eq_some.mp hs
  have hlong : genericSecret (l.text ++ m.text) = some (k, v ++ m.text) :=
    genericSecret_eq_some.mpr ⟨by rw [htext, List.append_assoc]; rfl, hk, hsearch⟩
  rw [secretLength, secretLength, if_pos hl, if_pos hm, hs, hlong, Option.elim_some,
    Option.elim_some, List.length_append]

/-- **What going into the next line costs.**  Where only lines with a secret do, no more of
them are left; if as many are left, then the values are no shorter together, and as long only
if nothing was taken in. -/
theorem secrets_coalesce (h : ls.IsChain fun l _ => l.ending = [] → isSecretLine l = true) :
    (coalesce ls).countP isSecretLine ≤ ls.countP isSecretLine ∧
      (ls.countP isSecretLine ≤ (coalesce ls).countP isSecretLine →
        secretLengths ls ≤ secretLengths (coalesce ls) ∧
          (secretLengths (coalesce ls) ≤ secretLengths ls → Loose ls)) := by
  induction ls with
  | nil => exact ⟨le_rfl, fun _ => ⟨le_rfl, fun _ => .nil⟩⟩
  | cons l ls ih =>
    have hsum (l : Line) (ls : List Line) :
        secretLengths (l :: ls) = secretLength l + secretLengths ls := by
      rw [secretLengths, List.map_cons, List.sum_cons]
      rfl
    obtain ⟨hcount, hlength⟩ := ih h.of_cons
    rw [coalesce]
    by_cases hending : l.ending = []
    · rw [if_pos hending]
      cases ls with
      | nil => exact ⟨le_rfl, fun _ => ⟨le_rfl, fun _ => .singleton l⟩⟩
      | cons l₂ ls =>
        have hl : isSecretLine l = true := (List.isChain_cons_cons.mp h).1 hending
        obtain ⟨t, m, ms, hcs, htext⟩ := head_coalesce l₂ ls
        rw [hcs] at hcount hlength ⊢
        have hm : (m :: ms).countP isSecretLine =
            ms.countP isSecretLine + if isSecretLine m = true then 1 else 0 := List.countP_cons
        rw [hm] at hcount hlength
        rw [List.countP_cons_of_pos hl]
        simp only
        by_cases hjoined : isSecretLine ⟨l.text ++ m.text, m.ending⟩ = true
        · rw [List.countP_cons_of_pos hjoined, hsum l, hsum _ ms, secretLength_append hl hjoined]
          constructor
          · omega
          · intro hle
            -- the line that was taken in had no secret of its own
            have hplain : ¬isSecretLine m = true := by
              intro hsecret
              rw [if_pos hsecret] at hcount
              omega
            have hlast : secretLengths (m :: ms) = secretLengths ms := by
              rw [hsum, secretLength, if_neg hplain, Nat.zero_add]
            rw [if_neg hplain] at hlength
            obtain ⟨hge, hloose⟩ := hlength (by omega)
            rw [hlast] at hge hloose
            refine ⟨by omega, fun hle => ?_⟩
            refine List.isChain_cons_cons.mpr ⟨fun _ => ?_, hloose (by omega)⟩
            have hmtext : m.text.length = 0 := by omega
            rw [List.length_eq_zero_iff, htext, List.append_eq_nil_iff] at hmtext
            exact hmtext.1
        · rw [List.countP_cons_of_neg hjoined]
          constructor
          · omega
          · intro hle
            omega
    · rw [if_neg hending, List.countP_cons, List.countP_cons, hsum, hsum]
      refine ⟨Nat.add_le_add_right hcount _, fun hle => ?_⟩
      obtain ⟨hge, hloose⟩ := hlength (Nat.le_of_add_le_add_right hle)
      refine ⟨by omega, fun hle => ?_⟩
      have hrest : Loose ls := hloose (by omega)
      cases ls with
      | nil => exact .singleton l
      | cons l₂ ls => exact List.isChain_cons_cons.mpr ⟨fun hnil => absurd hnil hending, hrest⟩

end Count

/-- A sensitive key is not blank. -/
theorem strip_ne_nil_of_search {k : List Char} (h : sensitiveKeyPattern.search (strip k) = true) :
    strip k ≠ [] := by
  intro hnil
  rw [hnil] at h
  exact absurd h (by decide)

section Entries

variable [Unicode] {sect v : List Char} {id : SecretId} {ls : List Line}

/-- As long together as the values on these lines. -/
theorem sum_genericEntries (sect : List Char) (ls : List Line) :
    ((genericEntries sect ls).map fun e => e.2.length).sum = secretLengths ls := by
  induction ls generalizing sect with
  | nil => rfl
  | cons l ls ih =>
    rw [genericEntries, secretLengths, List.map_cons, List.sum_cons, ← secretLengths, secretLength,
      isSecretLine]
    by_cases hsection : isSectionLine (strip l.text) = true
    · rw [if_pos hsection, ih, hsection]
      simp
    · rw [if_neg hsection]
      rw [Bool.not_eq_true] at hsection
      cases genericSecret l.text with
      | none => simp [ih]
      | some r => simp [ih, hsection]

/-- A line without a text has no secret. -/
theorem genericEntries_blank {m : Line} (hm : m.text = []) (sect : List Char)
    (ls : List Line) : genericEntries sect (m :: ls) = genericEntries sect ls := by
  rw [genericEntries, hm, if_neg (by decide)]
  rfl

/-- Where no text is taken in, all secrets stay. -/
theorem genericEntries_coalesce (hls : ∀ l ∈ ls, IsLine l) (h : Loose ls) (sect : List Char) :
    genericEntries sect (coalesce ls) = genericEntries sect ls := by
  induction ls generalizing sect with
  | nil => rfl
  | cons l ls ih =>
    have hrest {sect} := ih (fun m hm => hls m (List.mem_cons_of_mem _ hm)) h.of_cons sect
    rw [coalesce]
    by_cases hending : l.ending = []
    · rw [if_pos hending]
      cases ls with
      | nil => rfl
      | cons m ls =>
        have hm : m.text = [] := (List.isChain_cons_cons.mp h).1 hending
        have hmline := hls m (List.mem_cons_of_mem _ List.mem_cons_self)
        have hmending : m.ending ≠ [] := fun hnil => hmline.full (by rw [Line.full, hm, hnil]; rfl)
        have hnext {sect} : genericEntries sect (coalesce ls) = genericEntries sect ls := by
          have hboth := @hrest sect
          rwa [coalesce, if_neg hmending, genericEntries_blank hm, genericEntries_blank hm] at hboth
        rw [coalesce, if_neg hmending]
        simp only [hm, List.append_nil]
        rw [genericEntries, genericEntries]
        simp only [hnext, genericEntries_blank hm]
    · rw [if_neg hending, genericEntries, genericEntries]
      simp only [hrest]

/-- Where a secret of the backup comes from: a line of the current file that is no header. -/
theorem exists_line_of_mem (h : (id, v) ∈ genericEntries sect ls) :
    ∃ s k, id = secretId s k ∧ strip k ≠ [] ∧ isSectionLine (strip (k ++ '=' :: v)) = false := by
  induction ls generalizing sect with
  | nil => cases h
  | cons l ls ih =>
    rw [genericEntries] at h
    split_ifs at h with hsection
    · exact ih h
    · cases hs : genericSecret l.text with
      | none =>
        rw [hs] at h
        exact ih h
      | some r =>
        rw [hs] at h
        rcases List.mem_cons.mp h with heq | h
        · obtain ⟨rfl, rfl⟩ := Prod.mk.inj heq
          obtain ⟨htext, -, hsearch⟩ := genericSecret_eq_some.mp hs
          refine ⟨sect, r.1, rfl, strip_ne_nil_of_search hsearch, ?_⟩
          rw [← htext]
          simpa using hsection
        · exact ih h

end Entries

section Merged

/-- Case folding neither makes nor takes an opening bracket at the start of a text. -/
def KeepsBrackets [Unicode] : Prop :=
  ∀ t u : List Char, Unicode.casefold t = Unicode.casefold u →
    t.head? = some '[' → u.head? = some '['

/-- Values that make no header of a line, whichever key that folds to theirs is before them. -/
def Unheaded [Unicode] (values : List (SecretId × List Char)) : Prop :=
  ∀ s k v, values.lookup (secretId s k) = some v → strip k ≠ [] →
    isSectionLine (strip (k ++ '=' :: v)) = false

/-- How a line of a backup is merged. -/
structure IsMerged (l l' : Line) : Prop where
  secret : isSecretLine l' = isSecretLine l
  text : l'.text = [] ↔ l.text = []
  kept : isSecretLine l = true → l'.ending = keptOf l
  ending : isSecretLine l = false → l'.ending = l.ending

variable {values : List (SecretId × List Char)} {sect c : List Char} {l l' : Line}
  {ls ls' : List Line}

/-- A line without a secret is merged as it is. -/
theorem IsMerged.refl (h : isSecretLine l = false) : IsMerged l l :=
  ⟨rfl, Iff.rfl, fun hsecret => absurd hsecret (by simp [h]), fun _ => rfl⟩

/-- The values of an accepted text make no headers. -/
theorem unheaded_genericSecrets [Unicode] (hfold : KeepsBrackets) (h : IsGenericIni c) :
    Unheaded (genericSecrets c) := by
  intro s k v hlookup hk
  have hmem := (lookup_eq_some_iff h.unique).mp hlookup
  have hv : strip v ≠ [] := h.values _ hmem
  obtain ⟨s', k', hid, hk', hopen⟩ := exists_line_of_mem hmem
  rw [isSectionLine_secret hk' hv, Bool.and_eq_false_iff] at hopen
  rw [isSectionLine_secret hk hv, Bool.and_eq_false_iff]
  refine hopen.imp (fun hhead => ?_) id
  rw [beq_eq_false_iff_ne] at hhead ⊢
  exact fun hbracket => hhead (hfold _ _ (Prod.mk.inj hid).2 hbracket)

/-- A line with a secret is merged to one with a secret again. -/
theorem isMerged_secret {k v w e : List Char} (hs : genericSecret l.text = some (k, v))
    (hl : isSectionLine (strip l.text) = false)
    (hw : isSectionLine (strip (k ++ '=' :: w)) = false) (he : e = keptOf l) :
    IsMerged l ⟨k ++ '=' :: w, e⟩ := by
  have hsecret : isSecretLine l = true := by simp [isSecretLine, hl, hs]
  refine ⟨?_, ?_, fun _ => he, fun hplain => absurd hsecret (by simp [hplain])⟩
  · rw [hsecret, isSecretLine, hw, genericSecret_secret hs w]
    rfl
  · rw [(genericSecret_eq_some.mp hs).1]
    simp

/-- **How the lines of a backup are merged**, each by itself. -/
theorem isMerged_mergedLines [Unicode] (hvalues : Unheaded values)
    (hids : ∀ id ∈ (genericEntries sect ls).map Prod.fst, id ∈ values.map Prod.fst) :
    List.Forall₂ IsMerged ls (mergedLines values sect ls) := by
  induction ls generalizing sect with
  | nil => exact .nil
  | cons l ls ih =>
    rw [genericEntries] at hids
    rw [mergedLines]
    by_cases hsection : isSectionLine (strip l.text) = true
    · rw [if_pos hsection] at hids ⊢
      exact .cons (.refl (by simp [isSecretLine, hsection])) (ih hids)
    · rw [if_neg hsection] at hids ⊢
      cases hs : genericSecret l.text with
      | none =>
        rw [hs] at hids
        exact .cons (.refl (by simp [isSecretLine, hs])) (ih hids)
      | some r =>
        obtain ⟨k, v⟩ := r
        rw [hs, List.map_cons, List.forall_mem_cons] at hids
        obtain ⟨w, hw⟩ := Option.isSome_iff_exists.mp (isSome_lookup_iff.mpr hids.1)
        have hk := strip_ne_nil_of_search (genericSecret_eq_some.mp hs).2.2
        have hopen := hvalues sect k w hw hk
        simp only [hw, Option.getD_some]
        exact .cons (isMerged_secret hs (by simpa using hsection) hopen rfl) (ih hids.2)

/-- The secrets of the merged lines: those the backup names, as the current file has them. -/
theorem genericEntries_mergedLines [Unicode] (hvalues : Unheaded values)
    (hids : ∀ id ∈ (genericEntries sect ls).map Prod.fst, id ∈ values.map Prod.fst) :
    genericEntries sect (mergedLines values sect ls) =
      (genericEntries sect ls).map fun e => (e.1, (values.lookup e.1).getD []) := by
  induction ls generalizing sect with
  | nil => rfl
  | cons l ls ih =>
    rw [genericEntries] at hids
    rw [mergedLines, genericEntries]
    by_cases hsection : isSectionLine (strip l.text) = true
    · rw [if_pos hsection] at hids
      rw [if_pos hsection, if_pos hsection, genericEntries, if_pos hsection, ih hids]
    · rw [if_neg hsection] at hids
      rw [if_neg hsection, if_neg hsection]
      cases hs : genericSecret l.text with
      | none =>
        rw [hs] at hids
        simp only [genericEntries, if_neg hsection, hs, ih hids]
      | some r =>
        obtain ⟨k, v⟩ := r
        rw [hs, List.map_cons, List.forall_mem_cons] at hids
        obtain ⟨w, hw⟩ := Option.isSome_iff_exists.mp (isSome_lookup_iff.mpr hids.1)
        have hk := strip_ne_nil_of_search (genericSecret_eq_some.mp hs).2.2
        have hopen := hvalues sect k w hw hk
        simp only [hw, Option.getD_some, genericEntries, hopen, genericSecret_secret hs,
          Bool.false_eq_true, if_false, ih hids.2, List.map_cons]

/-- Each line with a secret ends with a line feed, or has no text after it. -/
def EndingsKept (ls : List Line) : Prop :=
  ls.IsChain fun l m => isSecretLine l = true →
    l.ending = ['\n'] ∨ l.ending = ['\r', '\n'] ∨ m.text = []

/-- Of merged lines only one with a secret may have lost its ending. -/
theorem chain_merged (h : List.Forall₂ IsMerged ls ls') (hls : Terminated ls) :
    ls'.IsChain fun l _ => l.ending = [] → isSecretLine l = true := by
  induction h with
  | nil => exact .nil
  | @cons l l' ls ls' hl hrest ih =>
    have htail := ih hls.2
    cases hrest with
    | nil => exact .singleton l'
    | cons hm hrest =>
      refine List.isChain_cons_cons.mpr ⟨fun hending => ?_, htail⟩
      rw [hl.secret]
      by_contra hplain
      rw [hl.ending (by simpa using hplain)] at hending
      cases hls.1 hending

/-- A merged line runs into no text exactly where the endings were such as are kept. -/
theorem loose_merged_iff (h : List.Forall₂ IsMerged ls ls') (hls : Terminated ls) :
    Loose ls' ↔ EndingsKept ls := by
  induction h with
  | nil => exact ⟨fun _ => .nil, fun _ => .nil⟩
  | @cons l l' ls ls' hl hrest ih =>
    have htail := ih hls.2
    cases hrest with
    | nil => exact ⟨fun _ => .singleton l, fun _ => .singleton l'⟩
    | @cons m m' ls ls' hm hrest =>
      have hending : l.ending ≠ [] := fun hnil => nomatch hls.1 hnil
      rw [Loose, EndingsKept, List.isChain_cons_cons, List.isChain_cons_cons]
      refine and_congr ⟨fun hloose hsecret => ?_, fun hkept hnil => ?_⟩ htail
      · rw [hl.kept hsecret, hm.text] at hloose
        by_cases hnil : keptOf l = []
        · exact .inr (.inr (hloose hnil))
        · have hsame := keptOf_eq_iff.mp ((kept_cases l).resolve_right hnil)
          exact (hsame.resolve_left hending).imp id .inl
      · rw [hm.text]
        by_cases hsecret : isSecretLine l = true
        · rw [hl.kept hsecret] at hnil
          rcases hkept hsecret with hlf | hcrlf | hblank
          · rw [keptOf_eq_iff.mpr (.inr (.inl hlf))] at hnil
            exact absurd hnil hending
          · rw [keptOf_eq_iff.mpr (.inr (.inr hcrlf))] at hnil
            exact absurd hnil hending
          · exact hblank
        · rw [hl.ending (by simpa using hsecret)] at hnil
          exact absurd hnil hending

end Merged

section Kept

variable [Unicode] {values : List (SecretId × List Char)} {backup current merged : List Char}
  {ids : List SecretId}

omit [Unicode] in
/-- The values of secrets that are looked up in another order are as long, together. -/
theorem sum_lookup (hunique : (values.map Prod.fst).Nodup) (hids : ids.Perm (values.map Prod.fst)) :
    (ids.map fun id => ((values.lookup id).getD []).length).sum =
      (values.map fun e => e.2.length).sum := by
  rw [(hids.map _).sum_nat, List.map_map]
  congr 1
  refine List.map_congr_left fun e he => ?_
  rw [Function.comp_apply, (lookup_eq_some_iff hunique).mpr he, Option.getD_some]

/-- The merged text is split into the merged lines, but for those that went into the next. -/
theorem splitLines_merged
    (hmerged : merged = joinLines (mergedLines (genericSecrets current) [] (splitLines backup))) :
    (∀ l ∈ mergedLines (genericSecrets current) [] (splitLines backup), IsLine l) ∧
      splitLines merged =
        coalesce (mergedLines (genericSecrets current) [] (splitLines backup)) := by
  have hlines := isLine_splitLines backup
  have hnobreak : ∀ e ∈ genericSecrets current, ∀ c ∈ e.2, isLineBreak c = false :=
    isLineBreak_genericEntries (isLine_splitLines current)
  obtain ⟨hlines', hkept⟩ := @isLine_mergedLines _ _ [] _ hlines hnobreak
  have hsep := separated_of_kept hkept hlines (separated_splitLines backup)
  refine ⟨hlines', ?_⟩
  rw [hmerged, splitLines_joinLines hlines' hsep]

/-- **A restore of GameUserSettings.ini keeps the secrets** of the current file exactly if the
backup has them all, and each on a line that ends with a line feed or that nothing is after. -/
theorem mergeGenericIni_keeps_iff (hfold : KeepsBrackets)
    (h : mergeGenericIni backup current = .ok merged) :
    (∀ e ∈ genericSecrets current, e ∈ genericSecrets merged) ↔
      (∀ id ∈ (genericSecrets current).map Prod.fst, id ∈ (genericSecrets backup).map Prod.fst) ∧
        EndingsKept (splitLines backup) := by
  obtain ⟨hcurrent, hunique, hids, hmerged, -⟩ := mergeGenericIni_eq_ok.mp h
  obtain ⟨hlines, hsplit⟩ := splitLines_merged hmerged
  have hvalues := unheaded_genericSecrets hfold hcurrent
  have hforall := isMerged_mergedLines hvalues hids
  have hentries := genericEntries_mergedLines hvalues hids
  have hterminated := terminated_splitLines backup
  rw [← loose_merged_iff hforall hterminated]
  constructor
  · intro hall
    have hsub := List.subperm_of_subset (List.Nodup.of_map Prod.fst hcurrent.unique) hall
    have hback := List.subperm_of_subset hunique hids
    obtain ⟨hcount, hloose⟩ := secrets_coalesce (chain_merged hforall hterminated)
    -- as many secrets in the merged text, in the backup and in the current file
    have hle₁ := hsub.length_le
    have hle₂ := hback.length_le
    have hsecrets : (genericSecrets merged).length =
        (coalesce (mergedLines (genericSecrets current) [] (splitLines backup))).countP
          isSecretLine := by rw [genericSecrets, hsplit, length_genericEntries]
    have hlines : (genericSecrets backup).length =
        (mergedLines (genericSecrets current) [] (splitLines backup)).countP isSecretLine := by
      rw [← length_genericEntries [], hentries, List.length_map]
    rw [List.length_map, List.length_map] at hle₂
    have hperm := hsub.perm_of_length_le (by omega)
    have hidsPerm := hback.perm_of_length_le (by rw [List.length_map, List.length_map]; omega)
    refine ⟨fun id hid => hidsPerm.mem_iff.mpr hid, (hloose (by omega)).2 ?_⟩
    -- and their values are as long
    have hsum := sum_lookup hcurrent.unique hidsPerm
    rw [List.map_map] at hsum
    rw [← sum_genericEntries [], ← hsplit, ← sum_genericEntries [], hentries, List.map_map,
      ← (hperm.map _).sum_nat, ← hsum]
    rfl
  · rintro ⟨hback, hloose⟩ ⟨id, v⟩ he
    rw [genericSecrets, hsplit, genericEntries_coalesce hlines hloose, hentries, List.mem_map]
    obtain ⟨e, he', rfl⟩ := List.mem_map.mp (hback id (List.mem_map.mpr ⟨_, he, rfl⟩))
    refine ⟨e, he', ?_⟩
    rw [(lookup_eq_some_iff hcurrent.unique).mpr he, Option.getD_some]

end Kept

/-- The ASCII folding keeps brackets. -/
theorem keepsBrackets_ascii : @KeepsBrackets .ascii := by
  intro t u h ht
  cases t with
  | nil => cases ht
  | cons c t =>
    obtain rfl : c = '[' := by simpa using ht
    cases u with
    | nil => cases h
    | cons d u =>
      have hd : '[' = d.toLower := (List.cons_eq_cons.mp h).1
      rw [Char.toLower] at hd
      split at hd
      · rename_i hupper
        have hval : ('[' : Char).val.toNat = (d.val + 32).toNat := congrArg (fun c => c.val.toNat) hd
        have hle : 65 ≤ d.val.toNat ∧ d.val.toNat ≤ 90 := hupper
        rw [UInt32.toNat_add] at hval
        have hbracket : ('[' : Char).val.toNat = 91 := rfl
        have hstep : (32 : UInt32).toNat = 32 := rfl
        omega
      · rw [← hd]
        rfl

/-- Two secrets in two sections, which the backup has in another order and another case. -/
theorem mergeGenericIni_keeps_iff_sections :
    @mergeGenericIni .ascii "[web]\npassword=\"\"\n[Server]\nApiToken=\nName=Old".toList
        "[Server]\nApiToken=t\n[Web]\nPassword=p\n".toList =
      .ok "[web]\npassword=p\n[Server]\nApiToken=t\nName=Old".toList ∧
    ∀ e ∈ @genericSecrets .ascii "[Server]\nApiToken=t\n[Web]\nPassword=p\n".toList,
      e ∈ @genericSecrets .ascii "[web]\npassword=p\n[Server]\nApiToken=t\nName=Old".toList := by
  have hmerge : @mergeGenericIni .ascii "[web]\npassword=\"\"\n[Server]\nApiToken=\nName=Old".toList
      "[Server]\nApiToken=t\n[Web]\nPassword=p\n".toList =
        .ok "[web]\npassword=p\n[Server]\nApiToken=t\nName=Old".toList := by decide +kernel
  refine ⟨hmerge, (@mergeGenericIni_keeps_iff .ascii _ _ _ keepsBrackets_ascii hmerge).mpr ⟨?_, ?_⟩⟩
  · decide +kernel
  · rw [EndingsKept]
    decide +kernel

/-- A backup from before the token was set: the restore loses it. -/
theorem mergeGenericIni_loses :
    @mergeGenericIni .ascii "[Server]\nName=Old\n".toList "[Server]\nApiToken=t\n".toList =
        .ok "[Server]\nName=Old\n".toList ∧
      ∃ e ∈ @genericSecrets .ascii "[Server]\nApiToken=t\n".toList,
        e ∉ @genericSecrets .ascii "[Server]\nName=Old\n".toList := by
  refine ⟨by decide +kernel, (("[server]".toList, "apitoken".toList), ['t']), ?_, ?_⟩
  · decide +kernel
  · decide +kernel

end PalworldManager
