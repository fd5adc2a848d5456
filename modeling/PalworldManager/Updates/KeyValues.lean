/-
# KeyValues

`parse_keyvalues` (`updates/service.py`) reads what SteamCMD answers.  Its tokens are bare
texts, so that the parser does not know a quoted brace from a brace.  A `Reading` keeps what
the parser took each token for; the parser returns what a reading of the tokens says, and
fails if there is none (`parseRoot_eq_ok`).  A reading is faithful if it took quoted texts for
strings and braces for blocks, which the tokens show (`parseKeyvalues_sound_iff`).  A tree that
is written with its strings quoted is read back unless one of them passes for a brace
(`parseKeyvalues_textForm_iff`).
-/

import PalworldManager.Outcomes
import PalworldManager.Text.Points

namespace PalworldManager

open Text

section Model

/-- What `parse_keyvalues` raises. -/
inductive KeyValuesError where
  | steamCmdError (message : String)
  | recursionError
  deriving DecidableEq, Repr

/-- The entries of a block in their order. -/
inductive KeyValues where
  | nil
  | text (key value : Str) (rest : KeyValues)
  | block (key : Str) (entries rest : KeyValues)
  deriving DecidableEq, Repr

/-- What a key has. -/
inductive KeyValue where
  | text (value : Str)
  | block (entries : KeyValues)
  deriving DecidableEq, Repr

/-- An entry before the others. -/
def KeyValue.put (key : Str) : KeyValue → KeyValues → KeyValues
  | .text value, rest => .text key value rest
  | .block entries, rest => .block key entries rest

/-- `result[key] = value`: a key that is there keeps its place. -/
def KeyValues.set (key : Str) (value : KeyValue) : KeyValues → KeyValues
  | .nil => value.put key .nil
  | .text k v rest => if k = key then value.put key rest else .text k v (rest.set key value)
  | .block k e rest => if k = key then value.put key rest else .block k e (rest.set key value)

/-- A token, and whether it stood in quotation marks. -/
inductive Token where
  | quoted (value : Str)
  | opening
  | closing
  deriving DecidableEq, Repr

abbrev openBrace : Str := str "\x7b"

abbrev closeBrace : Str := str "\x7d"

/-- The token as the parser sees it. -/
def Token.text : Token → Str
  | .quoted value => value
  | .opening => openBrace
  | .closing => closeBrace

/-- Where `_keyvalue_tokens` stands: outside of quotation marks, or in them with what it has
read, perhaps right after a backslash. -/
inductive TokenMode where
  | outside
  | quoted (value : Str)
  | escaped (value : Str)

/-- The loop of `_keyvalue_tokens`.  White space and unquoted text are passed over alike. -/
def scanTokens : TokenMode → Str → Except KeyValuesError (List Token)
  | .outside, [] => .ok []
  | .quoted _, [] | .escaped _, [] =>
      .error (.steamCmdError "resposta KeyValues inválida")
  | .outside, c :: t =>
      if c = .ofChar '{' then (scanTokens .outside t).map (.opening :: ·)
      else if c = .ofChar '}' then (scanTokens .outside t).map (.closing :: ·)
      else if c = quotation then scanTokens (.quoted []) t
      else scanTokens .outside t
  | .quoted value, c :: t =>
      if c = quotation then (scanTokens .outside t).map (.quoted value :: ·)
      else if c = backslash then scanTokens (.escaped value) t
      else scanTokens (.quoted (value ++ [c])) t
  | .escaped value, c :: t => scanTokens (.quoted (value ++ [c])) t

/-- `_keyvalue_tokens`. -/
def keyvalueTokens (content : Str) : Except KeyValuesError (List Str) :=
  (scanTokens .outside content).map fun tokens => tokens.map Token.text

/-- `_parse_keyvalue_value`, from how it reads a block; `frames` is how many calls the
interpreter still allows. -/
def parseKeyvalueValue
    (block : ℕ → List Str → Except KeyValuesError (KeyValues × List Str)) :
    ℕ → Str → List Str → Except KeyValuesError (KeyValue × List Str)
  | 0, _, _ => .error .recursionError
  | frames + 1, token, rest =>
      if token ≠ openBrace then .ok (.text token, rest)
      else (block frames rest).map fun r => (.block r.1, r.2)

/-- The loop of `_parse_keyvalue_value` in a block.  It takes a token each time, so a bound
above the number of tokens is never reached. -/
def parseBlock : ℕ → ℕ → KeyValues → List Str → Except KeyValuesError (KeyValues × List Str)
  | 0, _, _, _ => .error (.steamCmdError "resposta KeyValues incompleta")
  | _ + 1, _, _, [] => .error (.steamCmdError "resposta KeyValues incompleta")
  | n + 1, frames, result, key :: rest =>
      if key = closeBrace then .ok (result, rest)
      else if key = openBrace then .error (.steamCmdError "resposta KeyValues inválida")
      else match rest with
        | [] => .error (.steamCmdError "resposta KeyValues incompleta")
        | token :: rest => do
          let (value, rest) ←
            parseKeyvalueValue (fun frames => parseBlock n frames .nil) frames token rest
          parseBlock n frames (result.set key value) rest

/-- The loop of `parse_keyvalues`. -/
def parseRoot (frames : ℕ) : ℕ → KeyValues → List Str → Except KeyValuesError KeyValues
  | _, root, [] => .ok root
  | 0, root, _ => .ok root
  | n + 1, root, key :: rest =>
      if key = openBrace ∨ key = closeBrace then parseRoot frames n root rest
      else match rest with
        | [] => .ok root
        | token :: rest => do
          let (value, rest) ←
            parseKeyvalueValue (fun frames => parseBlock n frames .nil) frames token rest
          parseRoot frames n (root.set key value) rest

/-- `parse_keyvalues`, called with `frames` calls left. -/
def parseKeyvalues (frames : ℕ) (content : Str) : Except KeyValuesError KeyValues := do
  let tokens ← keyvalueTokens content
  parseRoot frames tokens.length .nil tokens

example : parseKeyvalues 1000 (str "AppID : 1,\n\"a\" \x7b \"b\" \"c\\\"\" \"b\" \"d\" \x7d") =
    .ok (.block (str "a") (.text (str "b") (str "d") .nil) .nil) := by decide

end Model

section Readings

/-- What the parser took the tokens for. -/
inductive Reading where
  | nil
  | text (key value : Token) (rest : Reading)
  | block (key left : Token) (entries : Reading) (right : Token) (rest : Reading)

/-- A text that is not a brace. -/
def IsKey (key : Str) : Prop := key ≠ openBrace ∧ key ≠ closeBrace

instance (key : Str) : Decidable (IsKey key) := inferInstanceAs (Decidable (_ ∧ _))

namespace Reading

/-- The tokens of the reading. -/
def tokens : Reading → List Token
  | nil => []
  | text key value rest => key :: value :: rest.tokens
  | block key left entries right rest =>
      key :: left :: (entries.tokens ++ right :: rest.tokens)

/-- The entries of the reading put one after the other: the last of equal keys wins. -/
def into : Reading → KeyValues → KeyValues
  | nil, result => result
  | text key value rest, result => rest.into (result.set key.text (.text value.text))
  | block key _ entries _ rest, result =>
      rest.into (result.set key.text (.block (entries.into .nil)))

/-- What the texts of the tokens allow. -/
def Bare : Reading → Prop
  | nil => True
  | text key value rest => IsKey key.text ∧ value.text ≠ openBrace ∧ rest.Bare
  | block key left entries right rest =>
      IsKey key.text ∧ left.text = openBrace ∧ entries.Bare ∧ right.text = closeBrace ∧ rest.Bare

/-- Strings stood in quotation marks, and braces did not. -/
def Faithful : Reading → Prop
  | nil => True
  | text key value rest =>
      key = .quoted key.text ∧ value = .quoted value.text ∧ rest.Faithful
  | block key left entries right rest =>
      key = .quoted key.text ∧ left = .opening ∧ entries.Faithful ∧ right = .closing ∧
        rest.Faithful

/-- The calls that the reading takes, one in the other. -/
def frames : Reading → ℕ
  | nil => 0
  | text _ _ rest => max 1 rest.frames
  | block _ _ entries _ rest => max (entries.frames + 1) rest.frames

end Reading

/-- What `parse_keyvalues` takes the tokens for: it passes over braces between the entries of
the root, and over a key at the end. -/
inductive ReadsAs : List Token → Reading → Prop
  | nil : ReadsAs [] .nil
  | last (key : Token) : IsKey key.text → ReadsAs [key] .nil
  | brace {tokens : List Token} {reading : Reading} (key : Token) :
      ¬IsKey key.text → ReadsAs tokens reading → ReadsAs (key :: tokens) reading
  | text {tokens : List Token} {reading : Reading} (key value : Token) :
      IsKey key.text → value.text ≠ openBrace → ReadsAs tokens reading →
      ReadsAs (key :: value :: tokens) (.text key value reading)
  | block {tokens : List Token} {reading : Reading} (key left : Token) (entries : Reading)
      (right : Token) : IsKey key.text → left.text = openBrace → entries.Bare →
      right.text = closeBrace → ReadsAs tokens reading →
      ReadsAs (key :: left :: (entries.tokens ++ right :: tokens))
        (.block key left entries right reading)

variable {n frames : ℕ} {result out : KeyValues} {key token : Token}
  {tokens after : List Token} {rest : List Str}

/-- The tokens are those of a block, the brace that closes it, and others. -/
def ReadsBlock (frames : ℕ) (result : KeyValues) (tokens : List Token) (out : KeyValues)
    (after : List Token) : Prop :=
  ∃ reading right, tokens = Reading.tokens reading ++ right :: after ∧ reading.Bare ∧
    reading.frames ≤ frames ∧ right.text = closeBrace ∧ out = reading.into result

/-- The token is a text, or opens a block. -/
def ReadsValue (frames : ℕ) (token : Token) (tokens : List Token) (value : KeyValue)
    (after : List Token) : Prop :=
  0 < frames ∧ (token.text ≠ openBrace ∧ value = .text token.text ∧ after = tokens ∨
    token.text = openBrace ∧ ∃ entries,
      ReadsBlock (frames - 1) .nil tokens entries after ∧ value = .block entries)

/-- The braces differ. -/
theorem closeBrace_ne_openBrace : closeBrace ≠ openBrace := by decide

/-- At its closing brace a block ends. -/
theorem readsBlock_close (h : key.text = closeBrace) :
    ReadsBlock frames result (key :: tokens) out after ↔ out = result ∧ after = tokens := by
  constructor
  · rintro ⟨reading, right, htokens, hbare, -, -, rfl⟩
    cases reading with
    | nil =>
      obtain ⟨-, rfl⟩ := List.cons.inj htokens
      exact ⟨rfl, rfl⟩
    | text key' value rest =>
      obtain ⟨rfl, -⟩ := List.cons.inj htokens
      exact absurd h hbare.1.2
    | block key' left entries right rest =>
      obtain ⟨rfl, -⟩ := List.cons.inj htokens
      exact absurd h hbare.1.2
  · rintro ⟨rfl, rfl⟩
    exact ⟨.nil, key, rfl, trivial, Nat.zero_le _, h, rfl⟩

/-- No key of a block is an opening brace. -/
theorem not_readsBlock_open (h : key.text = openBrace) :
    ¬ReadsBlock frames result (key :: tokens) out after := by
  rintro ⟨reading, right, htokens, hbare, -, hright, rfl⟩
  cases reading with
  | nil =>
    obtain ⟨rfl, -⟩ := List.cons.inj htokens
    exact closeBrace_ne_openBrace (hright.symm.trans h)
  | text key' value rest =>
    obtain ⟨rfl, -⟩ := List.cons.inj htokens
    exact hbare.1.1 h
  | block key' left entries right rest =>
    obtain ⟨rfl, -⟩ := List.cons.inj htokens
    exact hbare.1.1 h

/-- A key without a value ends no block. -/
theorem not_readsBlock_single (h : key.text ≠ closeBrace) :
    ¬ReadsBlock frames result [key] out after := by
  rintro ⟨reading, right, htokens, hbare, -, hright, rfl⟩
  cases reading with
  | nil =>
    obtain ⟨rfl, -⟩ := List.cons.inj htokens
    exact h hright
  | text key' value rest => simp [Reading.tokens] at htokens
  | block key' left entries right rest => simp [Reading.tokens] at htokens

/-- A key, its value, and the rest of the block. -/
theorem readsBlock_key (h : IsKey key.text) :
    ReadsBlock frames result (key :: token :: tokens) out after ↔
      ∃ value mid, ReadsValue frames token tokens value mid ∧
        ReadsBlock frames (result.set key.text value) mid out after := by
  constructor
  · rintro ⟨reading, right, htokens, hbare, hframes, hright, rfl⟩
    cases reading with
    | nil =>
      obtain ⟨rfl, -⟩ := List.cons.inj htokens
      exact absurd hright h.2
    | text key' value rest =>
      simp only [Reading.tokens, List.cons_append, List.cons.injEq] at htokens
      obtain ⟨rfl, rfl, rfl⟩ := htokens
      obtain ⟨-, hvalue, hrest⟩ := hbare
      rw [Reading.frames, Nat.max_le] at hframes
      exact ⟨_, _, ⟨hframes.1, .inl ⟨hvalue, rfl, rfl⟩⟩,
        rest, right, rfl, hrest, hframes.2, hright, rfl⟩
    | block key' left entries brace rest =>
      simp only [Reading.tokens, List.cons_append, List.append_assoc,
        List.cons.injEq] at htokens
      obtain ⟨rfl, rfl, rfl⟩ := htokens
      obtain ⟨-, hleft, hentries, hbrace, hrest⟩ := hbare
      rw [Reading.frames, Nat.max_le] at hframes
      exact ⟨_, _, ⟨by omega, .inr ⟨hleft, _, ⟨entries, brace, rfl, hentries, by omega, hbrace,
        rfl⟩, rfl⟩⟩, rest, right, rfl, hrest, hframes.2, hright, rfl⟩
  · rintro ⟨value, mid, ⟨hpos, hvalue⟩, rest, right, rfl, hrest, hframes, hright, rfl⟩
    obtain ⟨hne, rfl, hmid⟩ | ⟨hleft, _, ⟨entries, brace, rfl, hentries, hdepth, hbrace, rfl⟩,
      rfl⟩ := hvalue
    · subst hmid
      exact ⟨.text key token rest, right, rfl, ⟨h, hne, hrest⟩, max_le hpos hframes, hright,
        rfl⟩
    · refine ⟨.block key token entries brace rest, right, ?_,
        ⟨h, hleft, hentries, hbrace, hrest⟩, max_le (by omega) hframes, hright, rfl⟩
      simp [Reading.tokens]

/-- A value is read as `ReadsValue` says, where blocks are as `ReadsBlock` says. -/
theorem parseKeyvalueValue_eq_ok {value : KeyValue}
    (hblock : ∀ frames out, parseBlock n frames .nil (tokens.map Token.text) = .ok (out, rest) ↔
      ∃ after, rest = after.map Token.text ∧ ReadsBlock frames .nil tokens out after) :
    parseKeyvalueValue (fun frames => parseBlock n frames .nil) frames token.text
        (tokens.map Token.text) = .ok (value, rest) ↔
      ∃ after, rest = after.map Token.text ∧ ReadsValue frames token tokens value after := by
  cases frames with
  | zero => simp [parseKeyvalueValue, ReadsValue]
  | succ frames =>
    rw [parseKeyvalueValue]
    by_cases htoken : token.text = openBrace
    · rw [if_neg (not_not_intro htoken), except_map_eq_ok]
      constructor
      · rintro ⟨⟨entries, rest'⟩, hread, hvalue⟩
        obtain ⟨rfl, rfl⟩ := Prod.mk.inj hvalue
        obtain ⟨after, rfl, hentries⟩ := (hblock frames entries).mp hread
        exact ⟨after, rfl, Nat.succ_pos _, .inr ⟨htoken, entries, hentries, rfl⟩⟩
      · rintro ⟨after, rfl, -, ⟨hne, -⟩ | ⟨-, entries, hread, rfl⟩⟩
        · exact absurd htoken hne
        · exact ⟨(entries, _), (hblock frames entries).mpr ⟨after, rfl, hread⟩, rfl⟩
    · rw [if_pos htoken]
      constructor
      · intro h
        obtain ⟨rfl, rfl⟩ := Prod.mk.inj (Except.ok.inj h)
        exact ⟨tokens, rfl, Nat.succ_pos _, .inl ⟨htoken, rfl, rfl⟩⟩
      · rintro ⟨after, rfl, -, ⟨-, rfl, rfl⟩ | ⟨hopen, -⟩⟩
        · rfl
        · exact absurd hopen htoken

/-- A value leaves no more tokens than there were. -/
theorem ReadsValue.length_le {value : KeyValue} (h : ReadsValue frames token tokens value after) :
    after.length ≤ tokens.length := by
  obtain ⟨-, ⟨-, -, rfl⟩ | ⟨-, entries, ⟨reading, right, rfl, -⟩, -⟩⟩ := h
  · exact le_rfl
  · simp only [List.length_append, List.length_cons]
    omega

/-- **A block is read to the brace that closes it.** -/
theorem parseBlock_eq_ok (hn : tokens.length < n) :
    parseBlock n frames result (tokens.map Token.text) = .ok (out, rest) ↔
      ∃ after, rest = after.map Token.text ∧ ReadsBlock frames result tokens out after := by
  induction n generalizing frames result out tokens rest with
  | zero => omega
  | succ n ih =>
    cases tokens with
    | nil =>
      constructor
      · intro h
        cases h
      · rintro ⟨after, -, reading, right, htokens, -⟩
        simp at htokens
    | cons key tokens =>
      rw [List.map_cons]
      unfold parseBlock
      split_ifs with hclose hopen
      · simp only [readsBlock_close hclose]
        constructor
        · intro h
          obtain ⟨rfl, rfl⟩ := Prod.mk.inj (Except.ok.inj h)
          exact ⟨tokens, rfl, rfl, rfl⟩
        · rintro ⟨after, rfl, rfl, rfl⟩
          rfl
      · simp [not_readsBlock_open hopen]
      · cases tokens with
        | nil => simp [not_readsBlock_single hclose]
        | cons token tokens =>
          have hlength : tokens.length < n := by
            simp only [List.length_cons] at hn
            omega
          simp only [List.map_cons, readsBlock_key ⟨hopen, hclose⟩]
          rw [except_bind_eq_ok]
          constructor
          · rintro ⟨⟨value, mid⟩, hvalue, hrest⟩
            obtain ⟨after, rfl, htoken⟩ :=
              (parseKeyvalueValue_eq_ok fun _ _ => ih hlength).mp hvalue
            obtain ⟨last, rfl, hafter⟩ := (ih (htoken.length_le.trans_lt hlength)).mp hrest
            exact ⟨last, rfl, value, after, htoken, hafter⟩
          · rintro ⟨last, rfl, value, after, hvalue, hrest⟩
            exact ⟨(value, after.map Token.text),
              (parseKeyvalueValue_eq_ok fun _ _ => ih hlength).mpr ⟨after, rfl, hvalue⟩,
              (ih (hvalue.length_le.trans_lt hlength)).mpr ⟨last, rfl, hrest⟩⟩

variable {reading : Reading}

/-- Nothing is read from no tokens. -/
theorem reads_nil : ReadsAs [] reading ↔ reading = .nil := by
  constructor
  · rintro ⟨⟩
    rfl
  · rintro rfl
    exact .nil

/-- A key at the end is passed over. -/
theorem reads_single (h : IsKey key.text) :
    ReadsAs [key] reading ↔ reading = .nil := by
  constructor
  · intro hreads
    cases hreads with
    | last => rfl
    | brace key hkey _ => exact absurd h hkey
  · rintro rfl
    exact .last key h

/-- A brace between the entries of the root is passed over. -/
theorem reads_brace (h : ¬IsKey key.text) :
    ReadsAs (key :: tokens) reading ↔ ReadsAs tokens reading := by
  constructor
  · intro hreads
    cases hreads with
    | last key hkey => exact absurd hkey h
    | brace key _ hreads => exact hreads
    | text key value hkey _ _ => exact absurd hkey h
    | block key left entries right hkey _ _ _ _ => exact absurd hkey h
  · exact .brace key h

/-- A key of the root, its value, and the rest. -/
theorem reads_key (h : IsKey key.text) :
    (∃ reading, ReadsAs (key :: token :: tokens) reading ∧ reading.frames ≤ frames ∧
        out = reading.into result) ↔
      ∃ value mid, ReadsValue frames token tokens value mid ∧
        ∃ reading, ReadsAs mid reading ∧ reading.frames ≤ frames ∧
          out = reading.into (result.set key.text value) := by
  constructor
  · rintro ⟨reading, hreads, hframes, rfl⟩
    cases hreads with
    | brace key hkey _ => exact absurd h hkey
    | text key value _ hvalue hrest =>
      rw [Reading.frames, Nat.max_le] at hframes
      exact ⟨_, _, ⟨hframes.1, .inl ⟨hvalue, rfl, rfl⟩⟩, _, hrest, hframes.2, rfl⟩
    | block key left entries right _ hleft hentries hright hrest =>
      rw [Reading.frames, Nat.max_le] at hframes
      exact ⟨_, _, ⟨by omega, .inr ⟨hleft, _, ⟨entries, right, rfl, hentries, by omega, hright,
        rfl⟩, rfl⟩⟩, _, hrest, hframes.2, rfl⟩
  · rintro ⟨value, mid, ⟨hpos, hvalue⟩, reading, hreads, hframes, rfl⟩
    obtain ⟨hne, rfl, hmid⟩ | ⟨hleft, _, ⟨entries, right, rfl, hentries, hdepth, hright, rfl⟩,
      rfl⟩ := hvalue
    · subst hmid
      exact ⟨_, .text key token h hne hreads, max_le hpos hframes, rfl⟩
    · exact ⟨_, .block key token entries right h hleft hentries hright hreads,
        max_le (by omega) hframes, rfl⟩

/-- **The parser returns what a reading of the tokens says,** if the calls suffice for it. -/
theorem parseRoot_eq_ok (hn : tokens.length ≤ n) :
    parseRoot frames n result (tokens.map Token.text) = .ok out ↔
      ∃ reading, ReadsAs tokens reading ∧ reading.frames ≤ frames ∧ out = reading.into result := by
  induction n generalizing result tokens with
  | zero =>
    obtain rfl := List.length_eq_zero_iff.mp (Nat.le_zero.mp hn)
    simp [parseRoot, reads_nil, Reading.frames, Reading.into, eq_comm]
  | succ n ih =>
    cases tokens with
    | nil => simp [parseRoot, reads_nil, Reading.frames, Reading.into, eq_comm]
    | cons key tokens =>
      have hlength : tokens.length ≤ n := by simpa using hn
      rw [List.map_cons]
      unfold parseRoot
      split_ifs with hbrace
      · have hkey : ¬IsKey key.text := by
          rintro ⟨hopen, hclose⟩
          tauto
        simp only [reads_brace hkey]
        exact ih hlength
      · obtain ⟨hopen, hclose⟩ := not_or.mp hbrace
        cases tokens with
        | nil =>
          simp [reads_single ⟨hopen, hclose⟩, Reading.frames, Reading.into, eq_comm]
        | cons token tokens =>
          rw [List.length_cons] at hlength
          simp only [List.map_cons]
          rw [except_bind_eq_ok, reads_key ⟨hopen, hclose⟩]
          constructor
          · rintro ⟨⟨value, mid⟩, hvalue, hrest⟩
            obtain ⟨after, rfl, htoken⟩ :=
              (parseKeyvalueValue_eq_ok fun _ _ => parseBlock_eq_ok hlength).mp hvalue
            have hafter : after.length ≤ n := by
              have := htoken.length_le
              omega
            exact ⟨value, after, htoken, (ih hafter).mp hrest⟩
          · rintro ⟨value, mid, htoken, hrest⟩
            have hmid : mid.length ≤ n := by
              have := htoken.length_le
              omega
            exact ⟨(value, mid.map Token.text),
              (parseKeyvalueValue_eq_ok fun _ _ => parseBlock_eq_ok hlength).mpr
                ⟨mid, rfl, htoken⟩, (ih hmid).mpr hrest⟩

/-- `parse_keyvalues` returns what some reading of the tokens that fits puts together. -/
theorem parseKeyvalues_eq_ok {content : Str} (htokens : scanTokens .outside content = .ok tokens) :
    parseKeyvalues frames content = .ok out ↔
      ∃ reading, ReadsAs tokens reading ∧ reading.frames ≤ frames ∧ out = reading.into .nil := by
  rw [parseKeyvalues, keyvalueTokens, htokens]
  change parseRoot frames (tokens.map Token.text).length .nil (tokens.map Token.text) = _ ↔ _
  exact parseRoot_eq_ok (by simp)

end Readings

section Soundness

variable {frames depth : ℕ} {out : KeyValues} {token : Token} {rest tokens : List Token}
  {reading : Reading} {content : Str}

/-- The tokens taken in turn, where a value may be due, in `depth` blocks: no value that is due
is an unquoted `}` or a quoted `{`, and no quoted `}` stands where a block has its keys. -/
def CleanTokens : Bool → ℕ → List Token → Prop
  | _, _, [] => True
  | false, 0, token :: rest => CleanTokens (decide (IsKey token.text)) 0 rest
  | false, depth + 1, .closing :: rest => CleanTokens false depth rest
  | false, depth + 1, token :: rest => token.text ≠ closeBrace ∧ CleanTokens true (depth + 1) rest
  | true, depth, .opening :: rest => CleanTokens false (depth + 1) rest
  | true, depth, token :: rest =>
      token = .quoted token.text ∧ token.text ≠ openBrace ∧ CleanTokens false depth rest

/-- What was returned is what the content says: some reading of its tokens took strings for
keys and values and braces for blocks. -/
def Sound (content : Str) (out : KeyValues) : Prop :=
  ∃ tokens reading, scanTokens .outside content = .ok tokens ∧ ReadsAs tokens reading ∧
    reading.Faithful ∧ out = reading.into .nil

/-- The tokens of the content are clean from its start. -/
def CleanContent (content : Str) : Prop :=
  ∃ tokens, scanTokens .outside content = .ok tokens ∧ CleanTokens false 0 tokens

/-- A text that is not a brace stood in quotation marks. -/
theorem IsKey.quoted (h : IsKey token.text) : token = .quoted token.text := by
  cases token with
  | quoted value => rfl
  | opening => exact absurd rfl h.1
  | closing => exact absurd rfl h.2

/-- After a key a value is due. -/
theorem clean_key (h : IsKey token.text) :
    CleanTokens false depth (token :: rest) ↔ CleanTokens true depth rest := by
  cases depth with
  | zero => rw [CleanTokens, decide_eq_true h]
  | succ depth =>
    rw [h.quoted]
    exact and_iff_right h.2

/-- A value that opens no block must have stood in quotation marks. -/
theorem clean_value (h : token.text ≠ openBrace) :
    CleanTokens true depth (token :: rest) ↔
      token = .quoted token.text ∧ CleanTokens false depth rest := by
  cases token with
  | quoted value => simpa [CleanTokens, Token.text] using fun _ => h
  | opening => exact absurd rfl h
  | closing => simp [CleanTokens]

/-- A brace that opens a block must have stood without them. -/
theorem clean_left (h : token.text = openBrace) :
    CleanTokens true depth (token :: rest) ↔
      token = .opening ∧ CleanTokens false (depth + 1) rest := by
  cases token with
  | quoted value => simp [CleanTokens, h]
  | opening => simp [CleanTokens]
  | closing => exact absurd h closeBrace_ne_openBrace

/-- And so must the brace that closes it. -/
theorem clean_right (h : token.text = closeBrace) :
    CleanTokens false (depth + 1) (token :: rest) ↔
      token = .closing ∧ CleanTokens false depth rest := by
  cases token with
  | quoted value => simp [CleanTokens, h]
  | opening => exact absurd h.symm closeBrace_ne_openBrace
  | closing => simp [CleanTokens]

/-- A block is clean if it was read faithfully. -/
theorem clean_block {right : Token} (hbare : reading.Bare) (hright : right.text = closeBrace) :
    CleanTokens false (depth + 1) (reading.tokens ++ right :: rest) ↔
      reading.Faithful ∧ right = .closing ∧ CleanTokens false depth rest := by
  induction reading generalizing depth right rest with
  | nil => simp [Reading.tokens, Reading.Faithful, clean_right hright]
  | text key value reading ih =>
    obtain ⟨hkey, hvalue, hrest⟩ := hbare
    have hquoted := hkey.quoted
    simp only [Reading.tokens, Reading.Faithful, List.cons_append]
    rw [clean_key hkey, clean_value hvalue, ih hrest hright]
    tauto
  | block key left entries brace reading ihentries ih =>
    obtain ⟨hkey, hleft, hentries, hbrace, hrest⟩ := hbare
    have hquoted := hkey.quoted
    simp only [Reading.tokens, Reading.Faithful, List.cons_append, List.append_assoc]
    rw [clean_key hkey, clean_left hleft, ihentries hentries hbrace, ih hrest hright]
    tauto

/-- A reading is faithful exactly where its tokens are clean. -/
theorem ReadsAs.faithful_iff (h : ReadsAs tokens reading) :
    reading.Faithful ↔ CleanTokens false 0 tokens := by
  induction h with
  | nil => simp [Reading.Faithful, CleanTokens]
  | last key hkey => simp [Reading.Faithful, CleanTokens]
  | brace key hkey _ ih =>
    rw [ih, CleanTokens, decide_eq_false hkey]
  | text key value hkey hvalue _ ih =>
    have hquoted := hkey.quoted
    rw [clean_key hkey, clean_value hvalue, Reading.Faithful, ih]
    tauto
  | block key left entries right hkey hleft hentries hright _ ih =>
    have hquoted := hkey.quoted
    rw [clean_key hkey, clean_left hleft, clean_block hentries hright, Reading.Faithful, ih]
    tauto

/-- **What is returned is what the content says if its tokens are clean, and only then.** -/
theorem parseKeyvalues_sound_iff (h : parseKeyvalues frames content = .ok out) :
    Sound content out ↔ CleanContent content := by
  constructor
  · rintro ⟨tokens, reading, htokens, hreads, hfaithful, -⟩
    exact ⟨tokens, htokens, hreads.faithful_iff.mp hfaithful⟩
  · rintro ⟨tokens, htokens, hclean⟩
    obtain ⟨reading, hreads, -, rfl⟩ := (parseKeyvalues_eq_ok htokens).mp h
    exact ⟨tokens, reading, htokens, hreads, hreads.faithful_iff.mpr hclean, rfl⟩

/-- Two entries with one key, and a stray brace after the root. -/
theorem parseKeyvalues_sound_iff_clean :
    Sound (str "\"a\" \x7b \"b\" \"c\" \"b\" \"d\" \x7d \x7d")
        (.block (str "a") (.text (str "b") (str "d") .nil) .nil) ↔
      CleanContent (str "\"a\" \x7b \"b\" \"c\" \"b\" \"d\" \x7d \x7d") :=
  parseKeyvalues_sound_iff (show parseKeyvalues 1000 _ = .ok _ by decide)

/-- The brace that closes the block of `a` is taken for the value of `b`. -/
theorem parseKeyvalues_unsound : ∃ out,
    parseKeyvalues 1000 (str "\"a\" \x7b \"b\" \x7d \x7d") = .ok out ∧
      ¬Sound (str "\"a\" \x7b \"b\" \x7d \x7d") out := by
  refine ⟨.block (str "a") (.text (str "b") closeBrace .nil) .nil, by decide, ?_⟩
  rintro ⟨tokens, reading, htokens, hreads, hfaithful, -⟩
  have hscan : scanTokens .outside (str "\"a\" \x7b \"b\" \x7d \x7d") =
      .ok [.quoted (str "a"), .opening, .quoted (str "b"), .closing, .closing] := by
    decide
  obtain rfl := Except.ok.inj (htokens.symm.trans hscan)
  have ha : IsKey (Token.text (.quoted (str "a"))) := by decide
  have hb : IsKey (Token.text (.quoted (str "b"))) := by decide
  have hclean := hreads.faithful_iff.mp hfaithful
  rw [clean_key ha, clean_left rfl, clean_key hb, clean_value (by decide)] at hclean
  obtain ⟨-, hclosing, -⟩ := hclean
  cases hclosing

end Soundness

section RoundTrip

namespace KeyValues

/-- The keys of a node. -/
def keys : KeyValues → List Str
  | nil => []
  | text key _ rest | block key _ rest => key :: rest.keys

/-- The keys of each node differ. -/
def Distinct : KeyValues → Prop
  | nil => True
  | text key _ rest => key ∉ rest.keys ∧ rest.Distinct
  | block key entries rest => key ∉ rest.keys ∧ entries.Distinct ∧ rest.Distinct

/-- No key is a brace, and no text value an opening one. -/
def Unbraced : KeyValues → Prop
  | nil => True
  | text key value rest => IsKey key ∧ value ≠ openBrace ∧ rest.Unbraced
  | block key entries rest => IsKey key ∧ entries.Unbraced ∧ rest.Unbraced

/-- The calls that it takes to read the tree, one in the other. -/
def frames : KeyValues → ℕ
  | nil => 0
  | text _ _ rest => max 1 rest.frames
  | block _ entries rest => max (entries.frames + 1) rest.frames

/-- The tree as it is written. -/
def reading : KeyValues → Reading
  | nil => .nil
  | text key value rest => .text (.quoted key) (.quoted value) rest.reading
  | block key entries rest =>
      .block (.quoted key) .opening entries.reading .closing rest.reading

end KeyValues

/-- A backslash before each quotation mark and each backslash. -/
def escaped (value : Str) : Str :=
  value.flatMap fun c => if c = quotation ∨ c = backslash then [backslash, c] else [c]

/-- How a token is written. -/
def Token.written : Token → Str
  | .quoted value => quotation :: (escaped value ++ [quotation])
  | .opening => openBrace
  | .closing => closeBrace

/-- The tokens are written with white space between them. -/
inductive WrittenAs : List Token → Str → Prop
  | nil {space : Str} : space.IsBlank → WrittenAs [] space
  | cons {tokens : List Token} {space rest : Str} (token : Token) :
      space.IsBlank → WrittenAs tokens rest →
      WrittenAs (token :: tokens) (space ++ token.written ++ rest)

/-- Neither quotation marks nor braces. -/
def IsUnmarked (t : Str) : Prop :=
  ∀ c ∈ t, c ≠ .ofChar '{' ∧ c ≠ .ofChar '}' ∧ c ≠ quotation

/-- A text form of the tree, after lines without quotation marks and braces. -/
def TextForm (tree : KeyValues) (content : Str) : Prop :=
  ∃ lines text, IsUnmarked lines ∧ WrittenAs tree.reading.tokens text ∧ content = lines ++ text

variable {t w value : Str} {tokens : List Token}

/-- Text without quotation marks and braces is passed over. -/
theorem scanTokens_unmarked (h : IsUnmarked w) (t : Str) :
    scanTokens .outside (w ++ t) = scanTokens .outside t := by
  induction w with
  | nil => rfl
  | cons c w ih =>
    obtain ⟨hopen, hclose, hquote⟩ := h c List.mem_cons_self
    rw [List.cons_append, scanTokens, if_neg hopen, if_neg hclose, if_neg hquote]
    exact ih fun d hd => h d (List.mem_cons_of_mem _ hd)

/-- White space is such text. -/
theorem isUnmarked_of_isBlank (h : w.IsBlank) : IsUnmarked w := by
  intro c hc
  refine ⟨?_, ?_, ?_⟩ <;>
  · rintro rfl
    exact absurd (h _ hc) (by decide)

/-- What was escaped is read back as it was. -/
theorem scanTokens_escaped (value read t : Str) :
    scanTokens (.quoted read) (escaped value ++ quotation :: t) =
      (scanTokens .outside t).map (.quoted (read ++ value) :: ·) := by
  induction value generalizing read with
  | nil => simp [escaped, scanTokens]
  | cons c value ih =>
    have hcons : escaped (c :: value) =
        (if c = quotation ∨ c = backslash then [backslash, c] else [c]) ++ escaped value := rfl
    have hback : backslash ≠ quotation := by decide
    rw [hcons, List.append_assoc]
    split_ifs with hc
    · rw [List.cons_append, scanTokens, if_neg hback, if_pos rfl, List.cons_append,
        List.nil_append, scanTokens, ih]
      simp
    · rw [not_or] at hc
      rw [List.cons_append, List.nil_append, scanTokens, if_neg hc.1, if_neg hc.2, ih]
      simp

/-- **What is written is read again, token for token.** -/
theorem scanTokens_written (h : WrittenAs tokens t) : scanTokens .outside t = .ok tokens := by
  induction h with
  | @nil space hspace =>
    have hscan := scanTokens_unmarked (isUnmarked_of_isBlank hspace) []
    rwa [List.append_nil] at hscan
  | @cons tokens space rest token hspace _ ih =>
    rw [List.append_assoc, scanTokens_unmarked (isUnmarked_of_isBlank hspace)]
    cases token with
    | quoted value =>
      rw [Token.written, List.cons_append, List.append_assoc, List.singleton_append, scanTokens,
        if_neg (by decide), if_neg (by decide), if_pos rfl,
        scanTokens_escaped, ih]
      rfl
    | opening =>
      change scanTokens .outside (.ofChar '{' :: rest) = _
      rw [scanTokens, if_pos rfl, ih]
      rfl
    | closing =>
      change scanTokens .outside (.ofChar '}' :: rest) = _
      rw [scanTokens, if_neg (by decide), if_pos rfl, ih]
      rfl

variable {frames : ℕ} {tree out : KeyValues} {content : Str}

/-- What is put under a key fits where its parts do. -/
def KeyValue.Fits (frames : ℕ) : KeyValue → Prop
  | .text value => value ≠ openBrace ∧ 0 < frames
  | .block entries => entries.Unbraced ∧ entries.frames + 1 ≤ frames

/-- An entry before others that fit. -/
theorem KeyValue.put_fits {key : Str} {value : KeyValue} (hkey : IsKey key)
    (hvalue : value.Fits frames) (h : tree.Unbraced ∧ tree.frames ≤ frames) :
    (value.put key tree).Unbraced ∧ (value.put key tree).frames ≤ frames := by
  cases value with
  | text value => exact ⟨⟨hkey, hvalue.1, h.1⟩, max_le hvalue.2 h.2⟩
  | block entries => exact ⟨⟨hkey, hvalue.1, h.1⟩, max_le hvalue.2 h.2⟩

/-- An entry that is set among others that fit. -/
theorem KeyValues.set_fits {key : Str} {value : KeyValue} (hkey : IsKey key)
    (hvalue : value.Fits frames) (h : tree.Unbraced ∧ tree.frames ≤ frames) :
    (tree.set key value).Unbraced ∧ (tree.set key value).frames ≤ frames := by
  induction tree with
  | nil => exact KeyValue.put_fits hkey hvalue h
  | text k v rest ih =>
    obtain ⟨⟨hk, hv, hrest⟩, hframes⟩ := h
    rw [KeyValues.frames, Nat.max_le] at hframes
    rw [KeyValues.set]
    split_ifs
    · exact KeyValue.put_fits hkey hvalue ⟨hrest, hframes.2⟩
    · obtain ⟨hset, hfit⟩ := ih ⟨hrest, hframes.2⟩
      exact ⟨⟨hk, hv, hset⟩, max_le hframes.1 hfit⟩
  | block k e rest _ ih =>
    obtain ⟨⟨hk, he, hrest⟩, hframes⟩ := h
    rw [KeyValues.frames, Nat.max_le] at hframes
    rw [KeyValues.set]
    split_ifs
    · exact KeyValue.put_fits hkey hvalue ⟨hrest, hframes.2⟩
    · obtain ⟨hset, hfit⟩ := ih ⟨hrest, hframes.2⟩
      exact ⟨⟨hk, he, hset⟩, max_le hframes.1 hfit⟩

/-- **What is read fits:** no reading yields a brace for a key. -/
theorem Reading.into_fits {reading : Reading} (hbare : reading.Bare)
    (hframes : reading.frames ≤ frames) (h : tree.Unbraced ∧ tree.frames ≤ frames) :
    (reading.into tree).Unbraced ∧ (reading.into tree).frames ≤ frames := by
  induction reading generalizing tree frames with
  | nil => exact h
  | text key value rest ih =>
    obtain ⟨hkey, hvalue, hrest⟩ := hbare
    rw [Reading.frames, Nat.max_le] at hframes
    exact ih hrest hframes.2 (KeyValues.set_fits hkey ⟨hvalue, hframes.1⟩ h)
  | block key left entries right rest ihentries ih =>
    obtain ⟨hkey, -, hentries, -, hrest⟩ := hbare
    rw [Reading.frames, Nat.max_le] at hframes
    have hnil : KeyValues.nil.Unbraced ∧ KeyValues.nil.frames ≤ entries.frames :=
      ⟨trivial, Nat.zero_le _⟩
    obtain ⟨hunbraced, hdepth⟩ := ihentries hentries le_rfl hnil
    exact ih hrest hframes.2
      (KeyValues.set_fits hkey ⟨hunbraced, (Nat.succ_le_succ hdepth).trans hframes.1⟩ h)

/-- A reading is one that the texts allow. -/
theorem ReadsAs.bare {reading : Reading} (h : ReadsAs tokens reading) : reading.Bare := by
  induction h with
  | nil => trivial
  | last key _ => trivial
  | brace key _ _ ih => exact ih
  | text key value hkey hvalue _ ih => exact ⟨hkey, hvalue, ih⟩
  | block key left entries right hkey hleft hentries hright _ ih =>
    exact ⟨hkey, hleft, hentries, hright, ih⟩

/-- A reading that the texts allow is the reading of its tokens. -/
theorem Reading.Bare.reads {reading : Reading} (h : reading.Bare) :
    ReadsAs reading.tokens reading := by
  induction reading with
  | nil => exact .nil
  | text key value rest ih =>
    obtain ⟨hkey, hvalue, hrest⟩ := h
    exact .text key value hkey hvalue (ih hrest)
  | block key left entries right rest _ ih =>
    obtain ⟨hkey, hleft, hentries, hright, hrest⟩ := h
    exact .block key left entries right hkey hleft hentries hright (ih hrest)

namespace KeyValues

/-- The reading of a tree without braces is one that the texts allow. -/
theorem bare_reading (h : tree.Unbraced) : tree.reading.Bare := by
  induction tree with
  | nil => trivial
  | text key value rest ih =>
    obtain ⟨hkey, hvalue, hrest⟩ := h
    exact ⟨hkey, hvalue, ih hrest⟩
  | block key entries rest ihentries ih =>
    obtain ⟨hkey, hentries, hrest⟩ := h
    exact ⟨hkey, rfl, ihentries hentries, rfl, ih hrest⟩

/-- A tree and its reading take as many calls. -/
theorem frames_reading (tree : KeyValues) : tree.reading.frames = tree.frames := by
  induction tree with
  | nil => rfl
  | text key value rest ih => rw [KeyValues.reading, Reading.frames, ih, KeyValues.frames]
  | block key entries rest ihentries ih =>
    rw [KeyValues.reading, Reading.frames, ihentries, ih, KeyValues.frames]

/-- One node's entries after another's. -/
def append : KeyValues → KeyValues → KeyValues
  | nil, other => other
  | text key value rest, other => .text key value (rest.append other)
  | block key entries rest, other => .block key entries (rest.append other)

/-- Which two of three are put together first makes no difference. -/
theorem append_assoc (one two three : KeyValues) :
    (one.append two).append three = one.append (two.append three) := by
  induction one with
  | nil => rfl
  | text key value rest ih => rw [append, append, ih, append]
  | block key entries rest _ ih => rw [append, append, ih, append]

/-- No entries after a node's. -/
theorem append_nil (one : KeyValues) : one.append nil = one := by
  induction one with
  | nil => rfl
  | text key value rest ih => rw [append, ih]
  | block key entries rest _ ih => rw [append, ih]

/-- The keys of both, in order. -/
theorem keys_append (one two : KeyValues) : (one.append two).keys = one.keys ++ two.keys := by
  induction one with
  | nil => rfl
  | text key value rest ih => rw [append, keys, ih, keys, List.cons_append]
  | block key entries rest _ ih => rw [append, keys, ih, keys, List.cons_append]

/-- A new key goes to the end. -/
theorem set_of_not_mem {key : Str} {value : KeyValue} (h : key ∉ tree.keys) :
    tree.set key value = tree.append (value.put key nil) := by
  induction tree with
  | nil => rfl
  | text k v rest ih =>
    rw [keys, List.mem_cons, not_or] at h
    rw [set, if_neg (Ne.symm h.1), ih h.2, append]
  | block k e rest _ ih =>
    rw [keys, List.mem_cons, not_or] at h
    rw [set, if_neg (Ne.symm h.1), ih h.2, append]

/-- An empty node has no key. -/
theorem not_mem_keys_nil {key : Str} : key ∉ nil.keys := List.not_mem_nil

/-- The entries of a tree come after those that are there. -/
theorem into_reading (h : tree.Distinct) (hout : ∀ key ∈ tree.keys, key ∉ out.keys) :
    tree.reading.into out = out.append tree := by
  induction tree generalizing out with
  | nil => exact (append_nil out).symm
  | text key value rest ih =>
    obtain ⟨hkey, hrest⟩ := h
    rw [KeyValues.reading, Reading.into, Token.text, Token.text,
      set_of_not_mem (hout key List.mem_cons_self), ih hrest, append_assoc]
    · rfl
    · intro k hk hmem
      rw [keys_append, List.mem_append] at hmem
      obtain hmem | hmem := hmem
      · exact hout k (List.mem_cons_of_mem _ hk) hmem
      · obtain rfl := List.mem_singleton.mp hmem
        exact hkey hk
  | block key entries rest ihentries ih =>
    obtain ⟨hkey, hentries, hrest⟩ := h
    rw [KeyValues.reading, Reading.into, Token.text,
      ihentries hentries fun _ _ => not_mem_keys_nil,
      set_of_not_mem (hout key List.mem_cons_self), ih hrest, append_assoc]
    · rfl
    · intro k hk hmem
      rw [keys_append, List.mem_append] at hmem
      obtain hmem | hmem := hmem
      · exact hout k (List.mem_cons_of_mem _ hk) hmem
      · obtain rfl := List.mem_singleton.mp hmem
        exact hkey hk

end KeyValues

/-- No white space between the tokens. -/
theorem written_flatMap (tokens : List Token) : WrittenAs tokens (tokens.flatMap Token.written) := by
  induction tokens with
  | nil => exact .nil fun c hc => absurd hc List.not_mem_nil
  | cons token tokens ih => exact .cons token (fun c hc => absurd hc List.not_mem_nil) ih

/-- **The text form of a tree is read back if no string of it passes for a brace,** as far as
the calls suffice, and only then. -/
theorem parseKeyvalues_textForm_iff (hdistinct : tree.Distinct) (h : TextForm tree content) :
    parseKeyvalues frames content = .ok tree ↔ tree.Unbraced ∧ tree.frames ≤ frames := by
  obtain ⟨lines, text, hlines, htext, rfl⟩ := h
  have htokens : scanTokens .outside (lines ++ text) = .ok tree.reading.tokens := by
    rw [scanTokens_unmarked hlines, scanTokens_written htext]
  rw [parseKeyvalues_eq_ok htokens]
  constructor
  · rintro ⟨reading, hreads, hframes, hout⟩
    have hnil : KeyValues.nil.Unbraced ∧ KeyValues.nil.frames ≤ frames :=
      ⟨trivial, Nat.zero_le _⟩
    rw [hout]
    exact Reading.into_fits hreads.bare hframes hnil
  · rintro ⟨hunbraced, hframes⟩
    refine ⟨tree.reading, (KeyValues.bare_reading hunbraced).reads, ?_, ?_⟩
    · rwa [KeyValues.frames_reading]
    · exact (KeyValues.into_reading hdistinct fun _ _ => KeyValues.not_mem_keys_nil).symm

/-- A quotation mark in a string, a line before the tree, and no white space. -/
theorem parseKeyvalues_textForm_iff_quotation :
    parseKeyvalues 2 (str "AppID 7\n\"a\"\x7b\"b\"\"\\\"\"\x7d") =
        .ok (.block (str "a") (.text (str "b") (str "\"") .nil) .nil) ↔
      (KeyValues.block (str "a") (.text (str "b") (str "\"") .nil) .nil).Unbraced ∧
        (KeyValues.block (str "a") (.text (str "b") (str "\"") .nil) .nil).frames ≤ 2 := by
  refine parseKeyvalues_textForm_iff ⟨List.not_mem_nil, ⟨List.not_mem_nil, trivial⟩, trivial⟩
    ⟨str "AppID 7\n", _, ?_, written_flatMap _, by decide⟩
  have hlines : (str "AppID 7\n").all
      (fun c => c ≠ .ofChar '{' ∧ c ≠ .ofChar '}' ∧ c ≠ quotation) = true := by decide
  exact fun c hc => of_decide_eq_true (List.all_eq_true.mp hlines c hc)

/-- The tree with a brace for a text. -/
theorem parseKeyvalues_loses_brace : ∃ tree content,
    KeyValues.Distinct tree ∧ TextForm tree content ∧ tree.frames ≤ 1000 ∧
      parseKeyvalues 1000 content ≠ .ok tree := by
  refine ⟨.text (str "a") openBrace .nil, str "\"a\"\"\x7b\"",
    ⟨List.not_mem_nil, trivial⟩, ⟨[], _, ?_, written_flatMap _, by decide⟩,
    by decide, by decide⟩
  exact fun c hc => absurd hc List.not_mem_nil

end RoundTrip

end PalworldManager
