/-
# The filters of the history

`parse_audit_filters` and `AuditFilters.query_parameters` (`audit/history.py`).  What was
accepted is accepted again from the query of a link, with the page of the link
(`parseAuditFilters_queryParameters`).
-/

import PalworldManager.Dates
import PalworldManager.Outcomes
import PalworldManager.Text.Decimal

namespace PalworldManager

open Text

section Model

/-- `AUDIT_RESULTS`. -/
def auditResults : List Str := [str "SUCCESS", str "FAILURE", str "CANCELLED", str "INTERRUPTED"]

/-- `AUDIT_ORIGINS`. -/
def auditOrigins : List Str := [str "ADMINISTRATOR", str "AUTOMATIC", str "SYSTEM"]

/-- `[A-Z]`. -/
def isUpperAscii (c : Point) : Bool := 65 ≤ c.val && c.val ≤ 90

/-- `[A-Z0-9_]`. -/
def isActionPoint (c : Point) : Bool :=
  isUpperAscii c || (48 ≤ c.val && c.val ≤ 57) || c == .ofChar '_'

/-- `AUDIT_ACTION_PATTERN.fullmatch`. -/
def isActionCode : Str → Bool
  | [] => false
  | c :: rest => isUpperAscii c && rest.length ≤ 99 && rest.all isActionPoint

/-- `MAX_TARGET_FILTER_LENGTH`. -/
def maxTargetFilterLength : ℕ := 255

/-- What `parse_audit_filters` raises: an `AuditFilterError`, and the `ValueError` of `int` for
a text of too many digits. -/
inductive AuditFilterError where
  | invalid (message : String)
  | tooManyDigits
  deriving Repr, DecidableEq

/-- `AuditFilters`. -/
structure AuditFilters where
  dateFrom : Option CalendarDate
  dateTo : Option CalendarDate
  action : Option Str
  result : Option Str
  origin : Option Str
  userId : Option ℕ
  target : Option Str
  page : ℕ
  deriving DecidableEq

/-- The texts of a query. -/
structure RawFilters where
  dateFrom : Option Str
  dateTo : Option Str
  action : Option Str
  result : Option Str
  origin : Option Str
  userId : Option Str
  target : Option Str
  page : Option Str

/-- `_optional_text`. -/
def optionalText (value : Option Str) : Option Str :=
  let normalized := Str.strip (value.getD [])
  if normalized = [] then none else some normalized

/-- `_optional_date`. -/
def optionalDate (value : Option Str) (label : String) :
    Except AuditFilterError (Option CalendarDate) :=
  match optionalText value with
  | none => .ok none
  | some normalized =>
    match dateFromIsoformat normalized with
    | some date => .ok (some date)
    | none => .error (.invalid (label ++ " deve usar uma data válida."))

/-- `_optional_positive_int`. -/
def optionalPositiveInt (value : Option Str) (message : String) :
    Except AuditFilterError (Option ℕ) :=
  match optionalText value with
  | none => .ok none
  | some normalized =>
    if normalized.any fun c => c.digit.isNone then .error (.invalid message)
    else if maxIntDigits < normalized.length then .error .tooManyDigits
    else if digitsValue normalized < 1 then .error (.invalid message)
    else .ok (some (digitsValue normalized))

/-- `parse_audit_filters`. -/
def parseAuditFilters (raw : RawFilters) : Except AuditFilterError AuditFilters := do
  let dateFrom ← optionalDate raw.dateFrom "Data inicial"
  let dateTo ← optionalDate raw.dateTo "Data final"
  refuseIf (∃ a ∈ dateFrom, ∃ b ∈ dateTo, b.number < a.number)
    (.invalid "A data inicial não pode ser posterior à data final.")
  let action := optionalText raw.action
  refuseIf (∃ a ∈ action, isActionCode a = false) (.invalid "A ação informada é inválida.")
  let result := optionalText raw.result
  refuseIf (∃ r ∈ result, r ∉ auditResults) (.invalid "O resultado informado é inválido.")
  let origin := optionalText raw.origin
  refuseIf (∃ o ∈ origin, o ∉ auditOrigins) (.invalid "A origem informada é inválida.")
  let userId ← optionalPositiveInt raw.userId "O usuário informado é inválido."
  let target := optionalText raw.target
  refuseIf (∃ t ∈ target, maxTargetFilterLength < t.length)
    (.invalid "O alvo deve ter no máximo 255 caracteres.")
  let page ← optionalPositiveInt raw.page "A página informada é inválida."
  return ⟨dateFrom, dateTo, action, result, origin, userId, target, page.getD 1⟩

/-- `values.append((name, value))`, if there is a value. -/
def queryParameter (name : String) (value : Option Str) : List (Str × Str) :=
  (value.map fun t => (str name, t)).toList

/-- `AuditFilters.query_parameters`, for a page. -/
def AuditFilters.queryParameters (f : AuditFilters) (page : ℕ) : List (Str × Str) :=
  queryParameter "date_from" (f.dateFrom.map fun d => str d.isoformat) ++
  queryParameter "date_to" (f.dateTo.map fun d => str d.isoformat) ++
  queryParameter "action" f.action ++ queryParameter "result" f.result ++
  queryParameter "origin" f.origin ++
  queryParameter "user_id" (f.userId.map fun n => str (toString n)) ++
  queryParameter "target" f.target ++
  queryParameter "page" (if 1 < page then some (str (toString page)) else none)

/-- What `audit_history` (`audit/router.py`) gets from a query, of a link or of the form. -/
def RawFilters.ofQuery (query : List (Str × Str)) : RawFilters where
  dateFrom := query.lookup (str "date_from")
  dateTo := query.lookup (str "date_to")
  action := query.lookup (str "action")
  result := query.lookup (str "result")
  origin := query.lookup (str "origin")
  userId := query.lookup (str "user_id")
  target := query.lookup (str "target")
  page := query.lookup (str "page")

example : (parseAuditFilters (.ofQuery [(str "action", str " LOGIN "), (str "page", str "02")])).map
    (fun f => f.queryParameters f.page) = .ok [(str "action", str "LOGIN"), (str "page", str "2")] := by
  decide +kernel

end Model

section Accepted

variable {raw : RawFilters} {f : AuditFilters} {value : Option Str} {t : Str} {n : ℕ}

/-- A text that `_optional_text` yields. -/
def IsNormalized (t : Str) : Prop := t ≠ [] ∧ Str.strip t = t

/-- What `parse_audit_filters` accepts. -/
structure AuditFilters.IsAccepted (f : AuditFilters) : Prop where
  dates : ∀ a ∈ f.dateFrom, ∀ b ∈ f.dateTo, a.number ≤ b.number
  action : ∀ t ∈ f.action, IsNormalized t ∧ isActionCode t = true
  result : ∀ t ∈ f.result, IsNormalized t ∧ t ∈ auditResults
  origin : ∀ t ∈ f.origin, IsNormalized t ∧ t ∈ auditOrigins
  userId : ∀ n ∈ f.userId, 1 ≤ n ∧ n < 10 ^ maxIntDigits
  target : ∀ t ∈ f.target, IsNormalized t ∧ t.length ≤ maxTargetFilterLength
  page : 1 ≤ f.page

/-- What is taken of a text is normalized. -/
theorem isNormalized_of_optionalText (h : optionalText value = some t) : IsNormalized t := by
  unfold optionalText at h
  simp only at h
  split_ifs at h with hne
  obtain rfl := Option.some.inj h
  exact ⟨hne, Str.strip_of_isTrimmed (Str.isTrimmed_strip hne)⟩

/-- A normalized text is taken as it is. -/
theorem IsNormalized.optionalText (h : IsNormalized t) : optionalText (some t) = some t := by
  unfold PalworldManager.optionalText
  rw [Option.getD_some, h.2, if_neg h.1]

/-- An identifier that is taken is positive, and has not too many digits. -/
theorem optionalPositiveInt_bounds {message : String}
    (h : optionalPositiveInt value message = .ok (some n)) : 1 ≤ n ∧ n < 10 ^ maxIntDigits := by
  unfold optionalPositiveInt at h
  split at h
  · cases h
  · rename_i normalized _
    split_ifs at h with hdigits hlength hone
    cases h
    refine ⟨Nat.not_lt.mp hone, Nat.lt_of_lt_of_le (digitsValue_lt _) ?_⟩
    exact Nat.pow_le_pow_right (by decide) (Nat.not_lt.mp hlength)

/-- **What is parsed is accepted.** -/
theorem isAccepted_of_parse (h : parseAuditFilters raw = .ok f) : f.IsAccepted := by
  unfold parseAuditFilters at h
  obtain ⟨dateFrom, hfrom, h⟩ := except_bind_eq_ok.mp h
  obtain ⟨dateTo, hto, h⟩ := except_bind_eq_ok.mp h
  obtain ⟨_, hdates, h⟩ := except_bind_eq_ok.mp h
  obtain ⟨_, haction, h⟩ := except_bind_eq_ok.mp h
  obtain ⟨_, hresult, h⟩ := except_bind_eq_ok.mp h
  obtain ⟨_, horigin, h⟩ := except_bind_eq_ok.mp h
  obtain ⟨userId, huser, h⟩ := except_bind_eq_ok.mp h
  obtain ⟨_, htarget, h⟩ := except_bind_eq_ok.mp h
  obtain ⟨page, hpage, h⟩ := except_bind_eq_ok.mp h
  rw [refuseIf_eq_ok] at hdates haction hresult horigin htarget
  simp only [not_exists, not_and, Bool.not_eq_false, not_not, not_lt]
    at hdates haction hresult horigin htarget
  cases h
  refine ⟨hdates, fun t ht => ⟨isNormalized_of_optionalText ht, haction t ht⟩,
    fun t ht => ⟨isNormalized_of_optionalText ht, hresult t ht⟩,
    fun t ht => ⟨isNormalized_of_optionalText ht, horigin t ht⟩, fun n hn => ?_,
    fun t ht => ⟨isNormalized_of_optionalText ht, htarget t ht⟩, ?_⟩
  · obtain rfl : userId = some n := hn
    exact optionalPositiveInt_bounds huser
  · cases page with
    | none => exact Nat.le_refl 1
    | some page => exact (optionalPositiveInt_bounds hpage).1

end Accepted

section Links

variable {f : AuditFilters} {n page : ℕ}

/-- A parameter that may be there is found under its name. -/
theorem lookup_queryParameter (name : String) (value : Option Str) (rest : List (Str × Str)) :
    (queryParameter name value ++ rest).lookup (str name) =
      value.or (rest.lookup (str name)) := by
  cases value with
  | none => rfl
  | some t => simp [queryParameter]

/-- One parameter is not looked up under the name of another. -/
theorem lookup_queryParameter_of_ne {name other : String} (h : (str other == str name) = false)
    (value : Option Str) (rest : List (Str × Str)) :
    (queryParameter name value ++ rest).lookup (str other) = rest.lookup (str other) := by
  cases value with
  | none => rfl
  | some t => simp [queryParameter, List.lookup_cons, h]

/-- What is got from the query of a link. -/
theorem ofQuery_queryParameters (f : AuditFilters) (page : ℕ) :
    RawFilters.ofQuery (f.queryParameters page) =
      ⟨f.dateFrom.map fun d => str d.isoformat, f.dateTo.map fun d => str d.isoformat, f.action,
        f.result, f.origin, f.userId.map fun n => str (toString n), f.target,
        if 1 < page then some (str (toString page)) else none⟩ := by
  unfold RawFilters.ofQuery AuditFilters.queryParameters
  rw [← List.append_nil (queryParameter "page" _)]
  simp (disch := decide +kernel) only [List.append_assoc, lookup_queryParameter,
    lookup_queryParameter_of_ne, List.lookup_nil, Option.or_none]

/-- A text that neither starts nor ends with white space is normalized. -/
theorem isNormalized_of_ends {c d : Point} {t u v : Str} (hhead : t = c :: v)
    (hlast : t = u ++ [d]) (hc : c.isSpace = false) (hd : d.isSpace = false) : IsNormalized t := by
  have htrimmed : Str.IsTrimmed t := ⟨⟨c, v, hhead, hc⟩, ⟨u, d, hlast, hd⟩⟩
  exact ⟨htrimmed.ne_nil, Str.strip_of_isTrimmed htrimmed⟩

/-- A digit is no white space. -/
theorem isSpace_of_isDigit {c : Char} (h : c.isDigit = true) : (Point.ofChar c).isSpace = false := by
  obtain ⟨hlow, hhigh⟩ := isDigit_iff.mp h
  have hval : (Point.ofChar c).val = c.toNat := rfl
  rw [Point.isSpace, hval]
  generalize c.toNat = n at hlow hhigh
  interval_cases n <;> decide

/-- A digit that is written is a digit. -/
theorem isDigit_of_digit (n : ℕ) : (digit n).isDigit = true := by
  have hall : ∀ k < 10, (Nat.digitChar k).isDigit = true := by decide
  exact hall _ (Nat.mod_lt _ (by decide))

/-- A date that is written is read back. -/
theorem optionalDate_isoformat (o : Option CalendarDate) (label : String) :
    optionalDate (o.map fun d => str d.isoformat) label = .ok o := by
  cases o with
  | none => rfl
  | some d =>
    have hnormal : IsNormalized (str d.isoformat) := by
      have htext : str d.isoformat = [digit (d.year / 1000), digit (d.year / 100),
          digit (d.year / 10), digit d.year, '-', digit (d.month / 10), digit d.month, '-',
          digit (d.day / 10), digit d.day].map Point.ofChar := by
        rw [str, Date.isoformat, String.toList_ofList]
      rw [htext]
      exact isNormalized_of_ends (u := [digit (d.year / 1000), digit (d.year / 100),
          digit (d.year / 10), digit d.year, '-', digit (d.month / 10), digit d.month, '-',
          digit (d.day / 10)].map Point.ofChar) rfl rfl
        (isSpace_of_isDigit (isDigit_of_digit _)) (isSpace_of_isDigit (isDigit_of_digit _))
    unfold optionalDate
    rw [Option.map_some, hnormal.optionalText]
    simp only [dateFromIsoformat_isoformat]

/-- An identifier that is written is read back. -/
theorem optionalPositiveInt_toString {message : String} (hpos : 1 ≤ n)
    (hlt : n < 10 ^ maxIntDigits) :
    optionalPositiveInt (some (str (toString n))) message = .ok (some n) := by
  have hdigits : (toString n).toList = Nat.toDigits 10 n := String.toList_ofList
  have hdigit : ∀ c ∈ Nat.toDigits 10 n, c.isDigit = true := fun c hc =>
    Nat.isDigit_of_mem_toDigits (by decide) (by decide) hc
  have htext : str (toString n) = (Nat.toDigits 10 n).map Point.ofChar := by rw [str, hdigits]
  have hne : Nat.toDigits 10 n ≠ [] := by
    intro hnil
    have hvalue := digitsValue_toString n
    rw [htext, hnil] at hvalue
    simp [digitsValue] at hvalue
    omega
  have hnormal : IsNormalized (str (toString n)) := by
    obtain ⟨c, v, hhead⟩ := List.exists_cons_of_ne_nil hne
    obtain ⟨u, d, hlast⟩ := List.eq_nil_or_concat (Nat.toDigits 10 n) |>.resolve_left hne
    rw [htext]
    refine isNormalized_of_ends (c := .ofChar c) (v := v.map Point.ofChar) (d := .ofChar d)
      (u := u.map Point.ofChar) (by rw [hhead, List.map_cons]) (by simp [hlast]) ?_ ?_
    · exact isSpace_of_isDigit (hdigit c (by simp [hhead]))
    · exact isSpace_of_isDigit (hdigit d (by simp [hlast]))
  have hlength : (str (toString n)).length ≤ maxIntDigits := by
    rw [htext, List.length_map]
    exact (Nat.length_toDigits_le_iff (by decide) (by decide)).mpr hlt
  have hall : ((str (toString n)).any fun c => c.digit.isNone) = false := by
    refine List.any_eq_false.mpr fun c hc => ?_
    have hsome := isSome_digit_toString n c hc
    rw [Option.isSome_iff_ne_none] at hsome
    simpa using hsome
  unfold optionalPositiveInt
  rw [hnormal.optionalText]
  simp only [hall, Bool.false_eq_true, if_false, digitsValue_toString]
  rw [if_neg (Nat.not_lt.mpr hlength), if_neg (Nat.not_lt.mpr hpos)]

/-- So is a normalized text, or none. -/
theorem optionalText_of {o : Option Str} (h : ∀ t ∈ o, IsNormalized t) : optionalText o = o := by
  cases o with
  | none => rfl
  | some t => exact (h t rfl).optionalText

/-- So is an identifier, or none. -/
theorem optionalPositiveInt_of {o : Option ℕ} {message : String}
    (h : ∀ n ∈ o, 1 ≤ n ∧ n < 10 ^ maxIntDigits) :
    optionalPositiveInt (o.map fun n => str (toString n)) message = .ok o := by
  cases o with
  | none => rfl
  | some n => exact optionalPositiveInt_toString (h n rfl).1 (h n rfl).2

/-- **A link leads to what was accepted, on its page.** -/
theorem parseAuditFilters_queryParameters (h : f.IsAccepted) (hpos : 1 ≤ page)
    (hlt : page < 10 ^ maxIntDigits) :
    parseAuditFilters (.ofQuery (f.queryParameters page)) = .ok { f with page := page } := by
  have hpage : ∃ o : Option ℕ, (if 1 < page then some (str (toString page)) else none) =
      o.map (fun n => str (toString n)) ∧ o.getD 1 = page ∧
      ∀ n ∈ o, 1 ≤ n ∧ n < 10 ^ maxIntDigits := by
    by_cases hone : 1 < page
    · exact ⟨some page, if_pos hone, rfl, fun n hn => Option.some.inj hn ▸ ⟨hpos, hlt⟩⟩
    · exact ⟨none, if_neg hone, Nat.le_antisymm hpos (Nat.not_lt.mp hone), nofun⟩
  obtain ⟨o, ho, hvalue, hbounds⟩ := hpage
  have hdates : ¬∃ a ∈ f.dateFrom, ∃ b ∈ f.dateTo, b.number < a.number := by
    rintro ⟨a, ha, b, hb, hlt⟩
    exact Nat.not_lt.mpr (h.dates a ha b hb) hlt
  have haction : ¬∃ a ∈ f.action, isActionCode a = false := by
    rintro ⟨t, ht, hfalse⟩
    rw [(h.action t ht).2] at hfalse
    cases hfalse
  have hresult : ¬∃ r ∈ f.result, r ∉ auditResults := by
    rintro ⟨t, ht, hnot⟩
    exact hnot (h.result t ht).2
  have horigin : ¬∃ o ∈ f.origin, o ∉ auditOrigins := by
    rintro ⟨t, ht, hnot⟩
    exact hnot (h.origin t ht).2
  have htarget : ¬∃ t ∈ f.target, maxTargetFilterLength < t.length := by
    rintro ⟨t, ht, hlong⟩
    exact Nat.not_lt.mpr (h.target t ht).2 hlong
  rw [ofQuery_queryParameters, ho]
  unfold parseAuditFilters
  simp only [optionalDate_isoformat, optionalPositiveInt_of h.userId,
    optionalPositiveInt_of hbounds, optionalText_of fun t ht => (h.action t ht).1,
    optionalText_of fun t ht => (h.result t ht).1, optionalText_of fun t ht => (h.origin t ht).1,
    optionalText_of fun t ht => (h.target t ht).1, refuseIf, if_neg haction,
    if_neg hresult, if_neg horigin, if_neg htarget]
  show ((if ∃ a ∈ f.dateFrom, ∃ b ∈ f.dateTo, b.number < a.number then Except.error _
    else Except.ok ()) >>= fun _ => _) = _
  rw [if_neg hdates, ← hvalue]
  rfl

end Links

end PalworldManager
