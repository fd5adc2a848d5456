/-
# Dates

The dates of Python's `datetime`: their texts, and the days they are counted by.
`date.fromisoformat` reads the basic and the extended format, of a day of a month or of a week;
after eight characters without separators it does not look at the last two.
-/

import PalworldManager.Text.Utf8

namespace PalworldManager

open Text

/-- A date of the calendar. -/
structure Date where
  year : ℕ
  month : ℕ
  day : ℕ
  year_le : year ≤ 9999
  month_le : month ≤ 12
  day_le : day ≤ 31
  deriving DecidableEq

/-- A number whose order is that of the dates. -/
def Date.number (d : Date) : ℕ := d.year * 10000 + d.month * 100 + d.day

/-- **A date is told by its number.** -/
theorem Date.number_inj {d e : Date} (h : d.number = e.number) : d = e := by
  obtain ⟨y, m, n, hy, hm, hn⟩ := d
  obtain ⟨y', m', n', hy', hm', hn'⟩ := e
  simp only [Date.number] at h
  obtain ⟨rfl, rfl, rfl⟩ : y = y' ∧ m = m' ∧ n = n' := by omega
  rfl

/-- A digit. -/
def digit (n : ℕ) : Char := Nat.digitChar (n % 10)

/-- `date.isoformat`. -/
def Date.isoformat (d : Date) : String :=
  String.ofList
    [digit (d.year / 1000), digit (d.year / 100), digit (d.year / 10), digit d.year, '-',
      digit (d.month / 10), digit d.month, '-', digit (d.day / 10), digit d.day]

/-- A digit is written for one value. -/
theorem digit_inj {m n : ℕ} (h : digit m = digit n) : m % 10 = n % 10 := by
  have hall : ∀ a < 10, ∀ b < 10, Nat.digitChar a = Nat.digitChar b → a = b := by decide
  exact hall _ (Nat.mod_lt _ (by decide)) _ (Nat.mod_lt _ (by decide)) h

/-- The text of a date tells the date. -/
theorem Date.isoformat_inj {d e : Date} (h : d.isoformat = e.isoformat) : d = e := by
  have hlist := String.ofList_injective h
  simp only [List.cons.injEq, and_true, true_and] at hlist
  obtain ⟨h₁, h₂, h₃, h₄, h₅, h₆, h₇, h₈⟩ := hlist
  have := digit_inj h₁
  have := digit_inj h₂
  have := digit_inj h₃
  have := digit_inj h₄
  have := digit_inj h₅
  have := digit_inj h₆
  have := digit_inj h₇
  have := digit_inj h₈
  have := d.year_le
  have := e.year_le
  have := d.month_le
  have := e.month_le
  have := d.day_le
  have := e.day_le
  refine Date.number_inj ?_
  unfold Date.number
  omega

/-- `_is_leap`. -/
def isLeap (year : ℕ) : Bool := year % 4 == 0 && (year % 100 != 0 || year % 400 == 0)

/-- `_days_in_month`. -/
def daysInMonth (year month : ℕ) : ℕ :=
  if month = 2 then (if isLeap year then 29 else 28)
  else if month = 4 ∨ month = 6 ∨ month = 9 ∨ month = 11 then 30 else 31

/-- `_days_before_month`. -/
def daysBeforeMonth (year month : ℕ) : ℕ :=
  [0, 0, 31, 59, 90, 120, 151, 181, 212, 243, 273, 304, 334].getD month 0 +
    if 2 < month && isLeap year then 1 else 0

/-- `_days_before_year`. -/
def daysBeforeYear (year : ℕ) : ℕ :=
  (year - 1) * 365 + (year - 1) / 4 - (year - 1) / 100 + (year - 1) / 400

/-- `date`: a year, a month and a day that there are. -/
structure CalendarDate extends Date where
  year_pos : 1 ≤ year
  month_pos : 1 ≤ month
  day_pos : 1 ≤ day
  day_le_month : day ≤ daysInMonth year month
  deriving DecidableEq

/-- `date(year, month, day)`. -/
def CalendarDate.of (year month day : ℕ) : Option CalendarDate :=
  if h : (1 ≤ year ∧ year ≤ 9999) ∧ (1 ≤ month ∧ month ≤ 12) ∧ 1 ≤ day ∧
      day ≤ daysInMonth year month then
    have hday : daysInMonth year month ≤ 31 := by
      unfold daysInMonth
      split_ifs <;> omega
    some ⟨⟨year, month, day, h.1.2, h.2.1.2, h.2.2.2.trans hday⟩, h.1.1, h.2.1.1, h.2.2.1, h.2.2.2⟩
  else none

/-- `date.toordinal`: the first of January of the year 1 is day 1. -/
def CalendarDate.toordinal (d : CalendarDate) : ℕ :=
  daysBeforeYear d.year + daysBeforeMonth d.year d.month + d.day

/-- `_MAXORDINAL`. -/
def maxOrdinal : ℕ := 3652059

/-- `date.min`. -/
def CalendarDate.min : CalendarDate :=
  ⟨⟨1, 1, 1, by decide, by decide, by decide⟩, by decide, by decide, by decide, by decide⟩

/-- `date.max`. -/
def CalendarDate.max : CalendarDate :=
  ⟨⟨9999, 12, 31, by decide, by decide, by decide⟩, by decide, by decide, by decide, by decide⟩

/-- `parse_digits`. -/
def isoDigits (count : ℕ) (t : Str) : Option (ℕ × Str) :=
  if (t.take count).length = count ∧ (t.take count).all fun c => 48 ≤ c.val ∧ c.val ≤ 57 then
    some ((t.take count).foldl (fun n c => n * 10 + (c.val - 48)) 0, t.drop count)
  else none

/-- A hyphen, where there are separators. -/
def isoSeparator (separated : Bool) (t : Str) : Option Str :=
  if separated then (if t.head? = some (.ofChar '-') then some t.tail else none) else some t

/-- The first Monday of the weeks of a year, counted from the first of January of it as day 1:
`iso_week1_monday`. -/
def firstMonday (year : ℕ) : ℤ :=
  let weekday := (daysBeforeYear year + 7) % 7
  if 3 < weekday then 8 - weekday else 1 - weekday

/-- The day of a year with so many days from its first of January, which is day 1. -/
def dateOfYearDay (year : ℕ) (day : ℤ) : Option CalendarDate :=
  let length : ℤ := if isLeap year then 366 else 365
  if day ≤ 0 then CalendarDate.of (year - 1) 12 (day + 31).toNat
  else if length < day then CalendarDate.of (year + 1) 1 (day - length).toNat
  else do
    let month ← (List.range' 1 12).find? fun month =>
      day ≤ daysBeforeMonth year month + daysInMonth year month
    CalendarDate.of year month (day - daysBeforeMonth year month).toNat

/-- `iso_to_ymd`, and the date. -/
def dateOfWeek (year week day : ℕ) : Option CalendarDate :=
  let weekday := (daysBeforeYear year + 7) % 7
  let long := weekday = 3 ∨ weekday = 2 ∧ isLeap year
  if (1 ≤ year ∧ year ≤ 9999) ∧ (1 ≤ week ∧ (week < 53 ∨ week = 53 ∧ long)) ∧
      1 ≤ day ∧ day ≤ 7 then
    dateOfYearDay year (firstMonday year + (week - 1) * 7 + (day - 1))
  else none

/-- The week and the day of a text after its `W`. -/
def weekFromIsoformat (year : ℕ) (separated : Bool) (t : Str) : Option CalendarDate := do
  let (week, rest) ← isoDigits 2 t
  if rest.isEmpty then dateOfWeek year week 1
  else
    let rest ← isoSeparator separated rest
    let (day, _) ← isoDigits 1 rest
    dateOfWeek year week day

/-- `date.fromisoformat`. -/
def dateFromIsoformat (t : Str) : Option CalendarDate := do
  let encoded ← encodeUtf8 t
  guard (encoded.size = 7 ∨ encoded.size = 8 ∨ encoded.size = 10)
  let (year, rest) ← isoDigits 4 t
  let separated := rest.head? == some (.ofChar '-')
  let rest := if separated then rest.tail else rest
  if rest.head? = some (.ofChar 'W') then weekFromIsoformat year separated rest.tail
  else
    let (month, rest) ← isoDigits 2 rest
    let rest ← isoSeparator separated rest
    let (day, _) ← isoDigits 2 rest
    CalendarDate.of year month day

example : dateFromIsoformat (str "2020W011") = CalendarDate.of 2019 12 30 ∧
    dateFromIsoformat (str "2020-W53") = CalendarDate.of 2020 12 28 ∧
    dateFromIsoformat (str "20200101ab") = CalendarDate.of 2020 1 1 ∧
    dateFromIsoformat (str "9999-W52-6") = none := by decide +kernel

section Ordinals

variable {d : CalendarDate} {year month : ℕ}

/-- A month ends within the year, and before its last day unless it is December. -/
theorem daysBeforeMonth_add_le (hpos : 1 ≤ month) (hle : month ≤ 12) :
    daysBeforeMonth year month + daysInMonth year month ≤ 365 + (if isLeap year then 1 else 0) ∧
      (month < 12 → daysBeforeMonth year month + daysInMonth year month <
        365 + (if isLeap year then 1 else 0)) := by
  unfold daysBeforeMonth daysInMonth
  cases isLeap year <;> interval_cases month <;> decide

/-- The days of a year are before the next one. -/
theorem daysBeforeYear_succ (hpos : 1 ≤ year) :
    daysBeforeYear (year + 1) = daysBeforeYear year + 365 + (if isLeap year then 1 else 0) := by
  have hleap : isLeap year = true ↔ 4 ∣ year ∧ (¬100 ∣ year ∨ 400 ∣ year) := by
    simp [isLeap, Nat.dvd_iff_mod_eq_zero]
  have hsucc (n : ℕ) : year / n = (year - 1) / n + if n ∣ year then 1 else 0 := by
    conv_lhs => rw [← Nat.sub_add_cancel hpos]
    rw [Nat.succ_div, Nat.sub_add_cancel hpos]
  have hle : (year - 1) / 100 ≤ (year - 1) / 4 := Nat.div_le_div_left (by decide) (by decide)
  have hboth : 400 ∣ year → 100 ∣ year := fun h => Nat.dvd_trans (by decide) h
  have hquarter : 100 ∣ year → 4 ∣ year := fun h => Nat.dvd_trans (by decide) h
  unfold daysBeforeYear
  rw [Nat.add_sub_cancel, hsucc 4, hsucc 100, hsucc 400]
  split_ifs with h₄ h₁₀₀ h₄₀₀ hl <;> simp only [hleap] at * <;> omega

/-- More days lie before a later year. -/
theorem daysBeforeYear_mono {year' : ℕ} (hpos : 1 ≤ year) (h : year ≤ year') :
    daysBeforeYear year ≤ daysBeforeYear year' := by
  induction h with
  | refl => exact Nat.le_refl _
  | @step year' hle ih =>
    rw [Nat.succ_eq_add_one, daysBeforeYear_succ (Nat.le_trans hpos hle)]
    omega

/-- The first date has the ordinal 1. -/
theorem CalendarDate.toordinal_pos (d : CalendarDate) : 1 ≤ d.toordinal := by
  have := d.day_pos
  unfold toordinal
  omega

/-- No date is past the last. -/
theorem CalendarDate.toordinal_le (d : CalendarDate) : d.toordinal ≤ maxOrdinal := by
  have hmonth : daysBeforeMonth d.year d.month + daysInMonth d.year d.month ≤
      365 + (if isLeap d.year then 1 else 0) := (daysBeforeMonth_add_le d.month_pos d.month_le).1
  have hyear := daysBeforeYear_mono (Nat.le_add_left 1 _) (Nat.add_le_add_right d.year_le 1)
  have hnext := daysBeforeYear_succ d.year_pos
  have hmax : daysBeforeYear (9999 + 1) = maxOrdinal := by decide
  have := d.day_le_month
  unfold toordinal
  omega

/-- A date is its year, month and day. -/
theorem CalendarDate.ext_parts {d e : CalendarDate} (hyear : d.year = e.year)
    (hmonth : d.month = e.month) (hday : d.day = e.day) : d = e := by
  obtain ⟨⟨_, _, _, _, _, _⟩, _, _, _, _⟩ := d
  obtain ⟨⟨_, _, _, _, _, _⟩, _, _, _, _⟩ := e
  obtain rfl := hyear
  obtain rfl := hmonth
  obtain rfl := hday
  rfl

/-- Only the last date has the last number. -/
theorem CalendarDate.toordinal_eq_max : d.toordinal = maxOrdinal ↔ d = .max := by
  refine ⟨fun h => ?_, fun h => by rw [h]; decide⟩
  obtain ⟨hmonth, hlast⟩ : daysBeforeMonth d.year d.month + daysInMonth d.year d.month ≤
      365 + (if isLeap d.year then 1 else 0) ∧ (d.month < 12 →
        daysBeforeMonth d.year d.month + daysInMonth d.year d.month <
          365 + (if isLeap d.year then 1 else 0)) :=
    daysBeforeMonth_add_le d.month_pos d.month_le
  have hyear := daysBeforeYear_mono (Nat.le_add_left 1 _) (Nat.add_le_add_right d.year_le 1)
  have hnext := daysBeforeYear_succ d.year_pos
  have hmax : daysBeforeYear (9999 + 1) = maxOrdinal := by decide
  have hday := d.day_le_month
  unfold toordinal at h
  have htwelve : d.month = 12 := by
    by_contra hne
    have := hlast (Nat.lt_of_le_of_ne d.month_le hne)
    omega
  have hnine : d.year = 9999 := by
    by_contra hne
    have hle := daysBeforeYear_mono (Nat.le_add_left 1 d.year)
      (show d.year + 1 ≤ 9999 from Nat.lt_of_le_of_ne d.year_le hne)
    have hlast : daysBeforeYear 9999 < maxOrdinal := by decide
    omega
  have hthirty : d.day = 31 := by
    have hbefore : daysBeforeYear d.year + daysBeforeMonth d.year d.month + 31 = maxOrdinal := by
      rw [htwelve, hnine]
      decide
    omega
  exact ext_parts hnine htwelve hthirty

/-- Only the first date has the first number. -/
theorem CalendarDate.toordinal_eq_one : d.toordinal = 1 ↔ d = .min := by
  refine ⟨fun h => ?_, fun h => by rw [h]; decide⟩
  have hday := d.day_pos
  unfold toordinal at h
  have hone : d.year = 1 := by
    by_contra hne
    have hle := daysBeforeYear_mono (Nat.le_add_left 1 1)
      (show 1 + 1 ≤ d.year from Nat.lt_of_le_of_ne d.year_pos (Ne.symm hne))
    have hfirst : daysBeforeYear (1 + 1) = 365 := by decide
    omega
  have hmonth : d.month = 1 := by
    have hpos := d.month_pos
    have hle := d.month_le
    have hbefore : daysBeforeMonth d.year d.month = 0 := by omega
    rw [hone] at hbefore
    generalize d.month = month at hbefore hpos hle
    interval_cases month <;> first | rfl | cases hbefore
  exact ext_parts hone hmonth (show d.day = 1 by omega)

end Ordinals

section Texts

variable {d : CalendarDate}

/-- The parts of a date make it again. -/
theorem CalendarDate.of_eq (d : CalendarDate) : CalendarDate.of d.year d.month d.day = some d :=
  dif_pos ⟨⟨d.year_pos, d.year_le⟩, ⟨d.month_pos, d.month_le⟩, d.day_pos, d.day_le_month⟩

/-- A text of ASCII takes a byte for each character. -/
theorem size_encodeUtf8_of_ascii {cs : List Char} (h : ∀ c ∈ cs, c.utf8Size = 1) :
    ∃ b, encodeUtf8 (cs.map Point.ofChar) = some b ∧ b.size = cs.length := by
  refine ⟨_, encodeUtf8_eq_some.mpr ⟨cs, rfl, rfl⟩, ?_⟩
  rw [String.toByteArray_ofList]
  induction cs with
  | nil => rfl
  | cons c cs ih =>
    obtain ⟨hc, hcs⟩ := List.forall_mem_cons.mp h
    rw [List.utf8Encode_cons, ByteArray.size_append, ih hcs, List.utf8Encode_singleton,
      List.size_toByteArray, String.length_utf8EncodeChar, hc, List.length_cons, Nat.add_comm]

/-- A digit is one byte, and has the code of its value. -/
theorem digit_facts (n : ℕ) : (digit n).utf8Size = 1 ∧
    (Point.ofChar (digit n)).val = 48 + n % 10 := by
  have hall : ∀ k < 10, (Nat.digitChar k).utf8Size = 1 ∧
      (Point.ofChar (Nat.digitChar k)).val = 48 + k := by decide
  exact hall _ (Nat.mod_lt _ (by decide))

/-- Digits that were written are read as their number. -/
theorem isoDigits_digits (ns : List ℕ) (rest : Str) :
    isoDigits ns.length (ns.map (fun n => Point.ofChar (digit n)) ++ rest) =
      some (ns.foldl (fun n k => n * 10 + k % 10) 0, rest) := by
  have hlength : (ns.map fun n => Point.ofChar (digit n)).length = ns.length := List.length_map _
  have htake : (ns.map (fun n => Point.ofChar (digit n)) ++ rest).take ns.length =
      ns.map fun n => Point.ofChar (digit n) := List.take_left' hlength
  have hdrop : (ns.map (fun n => Point.ofChar (digit n)) ++ rest).drop ns.length = rest :=
    List.drop_left' hlength
  have hall : (ns.map fun n => Point.ofChar (digit n)).all
      (fun c => 48 ≤ c.val ∧ c.val ≤ 57) = true := by
    simp only [List.all_map, List.all_eq_true, Function.comp_apply, (digit_facts _).2,
      decide_eq_true_eq]
    intro n _
    omega
  unfold isoDigits
  rw [htake, hdrop, if_pos ⟨hlength, hall⟩, List.foldl_map]
  simp only [(digit_facts _).2, Nat.add_sub_cancel_left]

/-- **The text of a date is read as the date.** -/
theorem dateFromIsoformat_isoformat (d : CalendarDate) :
    dateFromIsoformat (str d.isoformat) = some d := by
  have hyear := d.year_le
  have hmonth := d.month_le
  have hday := d.day_le
  let f (n : ℕ) : Point := .ofChar (digit n)
  have htext : str d.isoformat = [d.year / 1000, d.year / 100, d.year / 10, d.year].map f ++
      .ofChar '-' :: ([d.month / 10, d.month].map f ++
        .ofChar '-' :: ([d.day / 10, d.day].map f ++ [])) := by
    rw [str, Date.isoformat, String.toList_ofList]
    rfl
  have hascii : ∀ c ∈ [digit (d.year / 1000), digit (d.year / 100), digit (d.year / 10),
      digit d.year, '-', digit (d.month / 10), digit d.month, '-', digit (d.day / 10),
      digit d.day], c.utf8Size = 1 := by
    simp only [List.forall_mem_cons, (digit_facts _).1, true_and]
    exact ⟨by decide, by decide, fun c hc => absurd hc List.not_mem_nil⟩
  obtain ⟨b, hb, hsize⟩ := size_encodeUtf8_of_ascii hascii
  have hencode : encodeUtf8 (str d.isoformat) = some b := by
    rw [str, Date.isoformat, String.toList_ofList]
    exact hb
  have hfour := isoDigits_digits [d.year / 1000, d.year / 100, d.year / 10, d.year]
    (.ofChar '-' :: ([d.month / 10, d.month].map f ++ .ofChar '-' :: ([d.day / 10, d.day].map f ++ [])))
  have htwo := isoDigits_digits [d.month / 10, d.month]
    (.ofChar '-' :: ([d.day / 10, d.day].map f ++ []))
  have hlast := isoDigits_digits [d.day / 10, d.day] []
  have hnumbers : [d.year / 1000, d.year / 100, d.year / 10, d.year].foldl
      (fun n k => n * 10 + k % 10) 0 = d.year ∧
      [d.month / 10, d.month].foldl (fun n k => n * 10 + k % 10) 0 = d.month ∧
      [d.day / 10, d.day].foldl (fun n k => n * 10 + k % 10) 0 = d.day := by
    simp only [List.foldl_cons, List.foldl_nil]
    omega
  rw [hnumbers.1] at hfour
  rw [hnumbers.2.1] at htwo
  rw [hnumbers.2.2] at hlast
  have hmark : ¬((.ofChar '-' :: ([d.month / 10, d.month].map f ++
      .ofChar '-' :: ([d.day / 10, d.day].map f ++ [])) : Str).tail.head? = some (.ofChar 'W')) := by
    intro hw
    have hval := congrArg Fin.val (Option.some.inj hw)
    rw [(digit_facts _).2] at hval
    have hletter : (Point.ofChar 'W').val = 87 := by decide
    omega
  have hguard : (guard (b.size = 7 ∨ b.size = 8 ∨ b.size = 10) : Option Unit) = some () := by
    rw [hsize]
    rfl
  unfold dateFromIsoformat
  rw [hencode, htext]
  simp only [Option.bind_eq_bind, Option.bind_some, hguard]
  rw [show isoDigits 4 _ = _ from hfour]
  simp only [Option.bind_some, List.head?_cons, beq_self_eq_true, if_true, if_neg hmark]
  rw [List.tail_cons, show isoDigits 2 _ = _ from htwo]
  simp only [Option.bind_some, isoSeparator, List.head?_cons, if_true, List.tail_cons]
  rw [show isoDigits 2 _ = _ from hlast]
  exact d.of_eq

end Texts

end PalworldManager
