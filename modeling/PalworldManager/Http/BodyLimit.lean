/-
# The limit on request bodies

`RequestBodyLimitMiddleware` (`security.py`).  The messages that the server sends are a list; where
it ends before the body does, the middleware waits for the next one (`call_append`: what it did by
then does not depend on what follows).

The declared length is converted by `int`, which refuses a text of more than 4300 digits.  That is
the one way in which the middleware itself raises (`handles_iff`).
-/

import PalworldManager.Text.Decimal

namespace PalworldManager

open Text

/-- A Python `bytes`. -/
abbrev Bytes := List UInt8

section Model

/-- A literal of the source, of ASCII characters. -/
def asciiBytes (s : String) : Bytes := s.toList.map fun c => c.toNat.toUInt8

/-- `bytes.lower`. -/
def lowerBytes (b : Bytes) : Bytes := b.map fun c => if 65 ≤ c ∧ c ≤ 90 then c + 32 else c

/-- `bytes.isdigit`. -/
def isDigitBytes (b : Bytes) : Bool := !b.isEmpty && b.all fun c => 48 ≤ c && c ≤ 57

/-- The number that ASCII digits write. -/
def bytesValue (b : Bytes) : ℕ := b.foldl (fun n c => 10 * n + (c.toNat - 48)) 0

/-- `int` of a text of ASCII digits; nothing where it raises a `ValueError`. -/
def intOfDigits (b : Bytes) : Option ℕ :=
  if maxIntDigits < b.length then none else some (bytesValue b)

/-- What the server sends. -/
inductive ReceiveMessage where
  | disconnect
  | request (body : Option Bytes) (moreBody : Option Bool)
  | other
  deriving DecidableEq

/-- What is sent to the server. -/
inductive SendMessage where
  | start (status : ℕ) (headers : List (Bytes × Bytes))
  | body (body : Bytes)
  deriving DecidableEq

/-- The part of a scope that the middleware reads. -/
structure HttpScope where
  type : String
  method : Option String
  headers : List (Bytes × Bytes)

/-- What the middleware does: it calls the inner application with the server's own `receive` or
with that of a body, sends an answer, returns, raises, or waits for the next message. -/
inductive LimitOutcome where
  | passed
  | called (body : Bytes)
  | answered (messages : List SendMessage)
  | returned
  | raised
  | waiting (body : Bytes)
  deriving DecidableEq

/-- `SAFE_HTTP_METHODS`. -/
def safeHttpMethods : List String := ["GET", "HEAD", "OPTIONS"]

/-- `_plain_response`. -/
def plainResponse (statusCode : ℕ) (text : String) : List SendMessage :=
  let body := text.toUTF8.toList
  [.start statusCode [(asciiBytes "content-type", asciiBytes "text/plain; charset=utf-8"),
      (asciiBytes "content-length", asciiBytes (toString body.length))],
    .body body]

/-- The answer to a declared length that is none. -/
def invalidLength : List SendMessage := plainResponse 400 "Content-Length inválido."

/-- The answer to a body above the limit. -/
def bodyTooLarge : List SendMessage :=
  plainResponse 413 "Corpo da requisição excede o limite permitido."

/-- `RequestBodyLimitMiddleware`. -/
structure RequestBodyLimitMiddleware where
  maximumBytes : ℕ
  positive : 0 < maximumBytes

/-- `content_lengths`. -/
def contentLengths (headers : List (Bytes × Bytes)) : List Bytes :=
  (headers.filter fun h => lowerBytes h.1 == asciiBytes "content-length").map Prod.snd

/-- The loop that receives the body. -/
def RequestBodyLimitMiddleware.receiveBody (m : RequestBodyLimitMiddleware) :
    Bytes → List ReceiveMessage → LimitOutcome
  | body, [] => .waiting body
  | _, .disconnect :: _ => .returned
  | body, .other :: rest => m.receiveBody body rest
  | body, .request chunk moreBody :: rest =>
    let body := body ++ chunk.getD []
    if m.maximumBytes < body.length then .answered bodyTooLarge
    else if moreBody.getD false then m.receiveBody body rest
    else .called body

/-- `RequestBodyLimitMiddleware.__call__`. -/
def RequestBodyLimitMiddleware.call (m : RequestBodyLimitMiddleware) (scope : HttpScope)
    (messages : List ReceiveMessage) : LimitOutcome :=
  if scope.type ≠ "http" ∨ ∃ method ∈ scope.method, method ∈ safeHttpMethods then .passed
  else
    match contentLengths scope.headers with
    | [] => m.receiveBody [] messages
    | [rawContentLength] =>
      if isDigitBytes rawContentLength then
        match intOfDigits rawContentLength with
        | none => .raised
        | some contentLength =>
          if m.maximumBytes < contentLength then .answered bodyTooLarge
          else m.receiveBody [] messages
      else .answered invalidLength
    | _ => .answered invalidLength

/-- `replay`, and whether the body is delivered after it. -/
def replay (body : Bytes) : Bool → ReceiveMessage × Bool
  | true => (.request (some []) (some false), true)
  | false => (.request (some body) (some false), true)

/-- What the inner application receives by so many calls. -/
def replays (body : Bytes) : ℕ → Bool → List ReceiveMessage
  | 0, _ => []
  | n + 1, delivered =>
    let (message, delivered) := replay body delivered
    message :: replays body n delivered

example : RequestBodyLimitMiddleware.call ⟨3, by decide⟩
    ⟨"http", some "POST", [(asciiBytes "Content-Length", asciiBytes "03")]⟩
    [.request (some [1, 2]) (some true), .other, .request (some [3]) none] = .called [1, 2, 3] := by
  decide

end Model

section Specification

/-- The bytes of a body in a message. -/
def ReceiveMessage.chunk : ReceiveMessage → Bytes
  | .request chunk _ => chunk.getD []
  | _ => []

/-- The last message of a body. -/
def ReceiveMessage.IsLast (message : ReceiveMessage) : Prop :=
  ∃ chunk moreBody, message = .request chunk moreBody ∧ moreBody.getD false = false

/-- The body up to its last chunk arrives, without a disconnect before it. -/
def Arrives (messages : List ReceiveMessage) (body : Bytes) : Prop :=
  ∃ pre last post, messages = pre ++ last :: post ∧ last.IsLast ∧
    (∀ x ∈ pre, x ≠ .disconnect ∧ ¬x.IsLast) ∧ body = (pre ++ [last]).flatMap (·.chunk)

/-- There is at most one `Content-Length`, and it is a decimal not above the limit. -/
def DeclaresWithin (maximumBytes : ℕ) (headers : List (Bytes × Bytes)) : Prop :=
  contentLengths headers = [] ∨ ∃ raw, contentLengths headers = [raw] ∧
    isDigitBytes raw = true ∧ bytesValue raw ≤ maximumBytes

/-- The declared length has more digits than `int` reads. -/
def DeclaresTooManyDigits (headers : List (Bytes × Bytes)) : Prop :=
  ∃ raw, contentLengths headers = [raw] ∧ isDigitBytes raw = true ∧ maxIntDigits < raw.length

/-- What the middleware is to do with a request. -/
structure RequestBodyLimitMiddleware.Handles (m : RequestBodyLimitMiddleware) (scope : HttpScope)
    (messages : List ReceiveMessage) : Prop where
  not_raised : m.call scope messages ≠ .raised
  called_iff : (∃ body, m.call scope messages = .called body) ↔
    DeclaresWithin m.maximumBytes scope.headers ∧
      ∃ body, Arrives messages body ∧ body.length ≤ m.maximumBytes
  body : ∀ body, m.call scope messages = .called body → Arrives messages body ∧
    ∀ n, replays body (n + 1) false =
      .request (some body) (some false) :: List.replicate n (.request (some []) (some false))
  otherwise : (¬∃ body, m.call scope messages = .called body) →
    m.call scope messages = .answered invalidLength ∨
      m.call scope messages = .answered bodyTooLarge ∨
      m.call scope messages = .returned ∧ ReceiveMessage.disconnect ∈ messages ∨
      (∃ body, m.call scope messages = .waiting body) ∧
        ∀ x ∈ messages, x ≠ .disconnect ∧ ¬x.IsLast

end Specification

section Body

variable {m : RequestBodyLimitMiddleware} {body b : Bytes} {x : ReceiveMessage}
  {messages more : List ReceiveMessage}

/-- Nothing arrives of no messages. -/
theorem not_arrives_nil : ¬Arrives [] b := by
  rintro ⟨pre, last, post, h, -⟩
  simp at h

/-- A body arrives with its first message, or after it. -/
theorem arrives_cons : Arrives (x :: messages) b ↔
    (x.IsLast ∧ b = x.chunk) ∨
      (x ≠ .disconnect ∧ ¬x.IsLast) ∧ ∃ rest, Arrives messages rest ∧ b = x.chunk ++ rest := by
  constructor
  · rintro ⟨pre, last, post, h, hlast, hpre, rfl⟩
    cases pre with
    | nil =>
      obtain ⟨rfl, rfl⟩ := List.cons.inj h
      exact .inl ⟨hlast, by simp⟩
    | cons y pre =>
      obtain ⟨rfl, rfl⟩ := List.cons.inj h
      obtain ⟨hx, hpre⟩ := List.forall_mem_cons.mp hpre
      exact .inr ⟨hx, _, ⟨pre, last, post, rfl, hlast, hpre, rfl⟩, rfl⟩
  · rintro (⟨hlast, rfl⟩ | ⟨hx, _, ⟨pre, last, post, rfl, hlast, hpre, rfl⟩, rfl⟩)
    · exact ⟨[], x, messages, rfl, hlast, nofun, by simp⟩
    · exact ⟨x :: pre, last, post, rfl, hlast, List.forall_mem_cons.mpr ⟨hx, hpre⟩, rfl⟩

/-- A message is the last unless it says that more follows. -/
theorem isLast_request {chunk : Option Bytes} {moreBody : Option Bool} :
    (ReceiveMessage.request chunk moreBody).IsLast ↔ moreBody.getD false = false := by
  constructor
  · rintro ⟨_, _, ⟨⟩, h⟩
    exact h
  · exact fun h => ⟨_, _, rfl, h⟩

/-- **The body that is collected is the one that arrives.** -/
theorem receiveBody_eq_called : m.receiveBody body messages = .called b ↔
    ∃ rest, Arrives messages rest ∧ b = body ++ rest ∧ b.length ≤ m.maximumBytes := by
  induction messages generalizing body with
  | nil => exact iff_of_false nofun fun ⟨_, h, _⟩ => not_arrives_nil h
  | cons x messages ih =>
    simp only [arrives_cons]
    cases x with
    | disconnect =>
      refine iff_of_false nofun ?_
      rintro ⟨_, ⟨⟨_, _, h, _⟩, _⟩ | ⟨⟨h, _⟩, _⟩, _⟩
      · cases h
      · exact h rfl
    | other =>
      rw [RequestBodyLimitMiddleware.receiveBody, ih]
      have hnot : ¬ReceiveMessage.other.IsLast := by
        rintro ⟨_, _, h, _⟩
        cases h
      constructor
      · rintro ⟨rest, hrest, hb⟩
        exact ⟨rest, .inr ⟨⟨nofun, hnot⟩, rest, hrest, rfl⟩, hb⟩
      · rintro ⟨rest, ⟨h, -⟩ | ⟨-, rest', hrest, heq⟩, hb⟩
        · exact absurd h hnot
        · obtain rfl : rest = rest' := heq
          exact ⟨rest, hrest, hb⟩
    | request chunk moreBody =>
      rw [RequestBodyLimitMiddleware.receiveBody]
      simp only [isLast_request, ReceiveMessage.chunk]
      split_ifs with hlarge hmore
      · -- what comes later makes the body no shorter
        refine iff_of_false nofun ?_
        rintro ⟨_, ⟨-, rfl⟩ | ⟨-, rest, -, rfl⟩, rfl, hle⟩ <;>
          simp only [List.length_append] at hle hlarge <;> omega
      · rw [ih]
        constructor
        · rintro ⟨rest, hrest, rfl, hle⟩
          refine ⟨_, .inr ⟨⟨nofun, by simp [hmore]⟩, rest, hrest, rfl⟩, ?_, hle⟩
          rw [List.append_assoc]
        · rintro ⟨_, ⟨hlast, -⟩ | ⟨-, rest, hrest, rfl⟩, rfl, hle⟩
          · rw [hmore] at hlast
            cases hlast
          · exact ⟨rest, hrest, (List.append_assoc ..).symm, hle⟩
      · constructor
        · rintro ⟨⟩
          exact ⟨_, .inl ⟨by simpa using hmore, rfl⟩, rfl, Nat.not_lt.mp hlarge⟩
        · rintro ⟨_, ⟨-, rfl⟩ | ⟨⟨-, hnot⟩, -⟩, rfl, -⟩
          · rfl
          · exact absurd (by simpa using hmore) hnot

/-- Where the body is not collected, it is too large, or the client leaves, or it is waited for. -/
theorem receiveBody_cases (m : RequestBodyLimitMiddleware) (body : Bytes)
    (messages : List ReceiveMessage) :
    (∃ b, m.receiveBody body messages = .called b) ∨
      m.receiveBody body messages = .answered bodyTooLarge ∨
      m.receiveBody body messages = .returned ∧ ReceiveMessage.disconnect ∈ messages ∨
      (∃ b, m.receiveBody body messages = .waiting b) ∧
        ∀ x ∈ messages, x ≠ .disconnect ∧ ¬x.IsLast := by
  induction messages generalizing body with
  | nil => exact .inr (.inr (.inr ⟨⟨body, rfl⟩, nofun⟩))
  | cons x messages ih =>
    have hcons (hx : x ≠ .disconnect ∧ ¬x.IsLast) {out : LimitOutcome}
        (h : (∃ b, out = .called b) ∨ out = .answered bodyTooLarge ∨
          out = .returned ∧ ReceiveMessage.disconnect ∈ messages ∨
          (∃ b, out = .waiting b) ∧ ∀ y ∈ messages, y ≠ .disconnect ∧ ¬y.IsLast) :
        (∃ b, out = .called b) ∨ out = .answered bodyTooLarge ∨
          out = .returned ∧ ReceiveMessage.disconnect ∈ x :: messages ∨
          (∃ b, out = .waiting b) ∧ ∀ y ∈ x :: messages, y ≠ .disconnect ∧ ¬y.IsLast := by
      refine h.imp_right (.imp_right (.imp (fun ⟨h, hmem⟩ => ⟨h, .tail _ hmem⟩) ?_))
      exact fun ⟨h, hall⟩ => ⟨h, List.forall_mem_cons.mpr ⟨hx, hall⟩⟩
    cases x with
    | disconnect => exact .inr (.inr (.inl ⟨rfl, .head _⟩))
    | other =>
      rw [RequestBodyLimitMiddleware.receiveBody]
      refine hcons ⟨nofun, ?_⟩ (ih body)
      rintro ⟨_, _, h, _⟩
      cases h
    | request chunk moreBody =>
      rw [RequestBodyLimitMiddleware.receiveBody]
      split_ifs with hlarge hmore
      · exact .inr (.inl rfl)
      · exact hcons ⟨nofun, by simp [isLast_request, hmore]⟩ (ih _)
      · exact .inl ⟨_, rfl⟩

/-- The body that was received does not depend on later messages. -/
theorem receiveBody_append (h : ∀ b, m.receiveBody body messages ≠ .waiting b) :
    m.receiveBody body (messages ++ more) = m.receiveBody body messages := by
  induction messages generalizing body with
  | nil => exact absurd rfl (h body)
  | cons x messages ih =>
    rw [List.cons_append]
    cases x with
    | disconnect => rfl
    | other => exact ih h
    | request chunk moreBody =>
      unfold RequestBodyLimitMiddleware.receiveBody at h ⊢
      simp only at h ⊢
      split_ifs with hlarge hmore
      · rfl
      · rw [if_neg hlarge, if_pos hmore] at h
        exact ih h
      · rfl

/-- The inner application reads the body, and then empty messages. -/
theorem replays_eq (body : Bytes) (n : ℕ) : replays body (n + 1) false =
    .request (some body) (some false) :: List.replicate n (.request (some []) (some false)) := by
  have hdelivered (n : ℕ) :
      replays body n true = List.replicate n (.request (some []) (some false)) := by
    induction n with
    | zero => rfl
    | succ n ih =>
      rw [List.replicate_succ, ← ih]
      rfl
  rw [← hdelivered]
  rfl

end Body

section Request

variable {m : RequestBodyLimitMiddleware} {scope : HttpScope}
  {messages more : List ReceiveMessage}

/-- What the middleware did does not depend on what it has not received. -/
theorem call_append (h : ∀ b, m.call scope messages ≠ .waiting b) :
    m.call scope (messages ++ more) = m.call scope messages := by
  unfold RequestBodyLimitMiddleware.call at h ⊢
  split_ifs with hsafe
  · rfl
  · rw [if_neg hsafe] at h
    split
    · rename_i hnone
      rw [hnone] at h
      exact receiveBody_append h
    · rename_i raw hraw
      rw [hraw] at h
      simp only at h
      split_ifs with hdigits
      · rw [if_pos hdigits] at h
        split
        · rfl
        · rename_i n hn
          rw [hn] at h
          simp only at h
          split_ifs with hlarge
          · rfl
          · rw [if_neg hlarge] at h
            exact receiveBody_append h
      · rfl
    · rfl

/-- **A body is asked for where the declared length is within the limit and `int` reads it.** -/
theorem call_eq (hhttp : scope.type = "http") (hmethod : ∀ method ∈ scope.method,
    method ∉ safeHttpMethods) :
    (DeclaresTooManyDigits scope.headers ∧ m.call scope messages = .raised) ∨
      ¬DeclaresTooManyDigits scope.headers ∧
        ((DeclaresWithin m.maximumBytes scope.headers ∧
            m.call scope messages = m.receiveBody [] messages) ∨
          ¬DeclaresWithin m.maximumBytes scope.headers ∧
            (m.call scope messages = .answered invalidLength ∨
              m.call scope messages = .answered bodyTooLarge)) := by
  have hunsafe : ¬(scope.type ≠ "http" ∨ ∃ method ∈ scope.method, method ∈ safeHttpMethods) := by
    rintro (h | ⟨method, hmem, h⟩)
    · exact h hhttp
    · exact hmethod method hmem h
  unfold RequestBodyLimitMiddleware.call DeclaresTooManyDigits DeclaresWithin
  rw [if_neg hunsafe]
  match hlengths : contentLengths scope.headers with
  | [] => exact .inr ⟨nofun, .inl ⟨.inl rfl, rfl⟩⟩
  | [raw] =>
    simp only [List.cons.injEq, and_true, exists_eq_left', reduceCtorEq, false_or]
    unfold intOfDigits
    by_cases hdigits : isDigitBytes raw = true
    · simp only [hdigits, true_and, if_true]
      by_cases hmany : maxIntDigits < raw.length
      · exact .inl ⟨hmany, by rw [if_pos hmany]⟩
      · refine .inr ⟨hmany, ?_⟩
        rw [if_neg hmany]
        simp only
        by_cases hlarge : m.maximumBytes < bytesValue raw
        · exact .inr ⟨Nat.not_le.mpr hlarge, .inr (if_pos hlarge)⟩
        · exact .inl ⟨Nat.not_lt.mp hlarge, if_neg hlarge⟩
    · rw [if_neg hdigits]
      exact .inr ⟨fun h => hdigits h.1, .inr ⟨fun h => hdigits h.1, .inl rfl⟩⟩
  | _ :: _ :: _ =>
    refine .inr ⟨?_, .inr ⟨?_, .inl rfl⟩⟩
    · rintro ⟨_, h, -⟩
      cases h
    · rintro (h | ⟨_, h, -⟩) <;> cases h

/-- **The middleware does what it is to do unless `int` refuses the declared length.** -/
theorem handles_iff (hhttp : scope.type = "http")
    (hmethod : ∀ method ∈ scope.method, method ∉ safeHttpMethods) :
    m.Handles scope messages ↔ ¬DeclaresTooManyDigits scope.headers := by
  have hcases : (DeclaresTooManyDigits scope.headers ∧ m.call scope messages = .raised) ∨ _ :=
    call_eq hhttp hmethod
  obtain ⟨hmany, hraised⟩ | ⟨hmany, ⟨hwithin, hcall⟩ | ⟨hwithin, hcall⟩⟩ := hcases
  · exact iff_of_false (fun h => h.not_raised hraised) (not_not_intro hmany)
  · refine iff_of_true ⟨?_, ?_, fun body hbody => ⟨?_, replays_eq body⟩, fun hnot => ?_⟩ hmany
    · rw [hcall]
      obtain ⟨b, h⟩ | h | ⟨h, -⟩ | ⟨⟨b, h⟩, -⟩ := receiveBody_cases m [] messages <;>
        rw [h] <;> nofun
    · simp only [hcall, receiveBody_eq_called, List.nil_append]
      constructor
      · rintro ⟨_, rest, hrest, rfl, hle⟩
        exact ⟨hwithin, _, hrest, hle⟩
      · rintro ⟨-, body, hbody, hle⟩
        exact ⟨body, body, hbody, rfl, hle⟩
    · rw [hcall, receiveBody_eq_called] at hbody
      obtain ⟨rest, hrest, rfl, -⟩ := hbody
      exact hrest
    · rw [hcall] at hnot ⊢
      exact .inr ((receiveBody_cases m [] messages).resolve_left hnot)
  · refine iff_of_true ⟨?_, iff_of_false ?_ fun h => hwithin h.1, ?_, fun _ => ?_⟩ hmany
    · obtain h | h := hcall <;> rw [h] <;> nofun
    · rintro ⟨b, hb⟩
      obtain h | h := hcall <;> rw [h] at hb <;> cases hb
    · intro b hb
      obtain h | h := hcall <;> rw [h] at hb <;> cases hb
    · exact hcall.imp_right .inl

/-- A request that declares its length. -/
def postScope (length : Bytes) : HttpScope :=
  ⟨"http", some "POST", [(asciiBytes "content-length", length)]⟩

/-- A body that comes in two chunks. -/
theorem handles_twoChunks :
    (⟨3, by decide⟩ : RequestBodyLimitMiddleware).Handles (postScope (asciiBytes "3"))
        [.request (some [1, 2]) (some true), .request (some [3]) none] ↔
      ¬DeclaresTooManyDigits (postScope (asciiBytes "3")).headers :=
  handles_iff rfl (by rintro _ ⟨⟩; decide)

/-- A length of 4301 digits. -/
theorem not_handles_manyDigits : ¬∀ (m : RequestBodyLimitMiddleware) (scope : HttpScope)
    (messages : List ReceiveMessage), scope.type = "http" →
      (∀ method ∈ scope.method, method ∉ safeHttpMethods) → m.Handles scope messages := by
  intro hall
  have h := hall ⟨1048576, by decide⟩ (postScope (List.replicate 4301 57)) [] rfl
    (by rintro _ ⟨⟩; decide)
  exact h.not_raised (by decide +kernel)

end Request

end PalworldManager
