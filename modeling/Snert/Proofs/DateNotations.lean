/-
Module: Snert.Proofs.DateNotations
Purpose: What `convertDate` makes of a date and a time with a zone in the notations of RFC 2822, of
  `ctime` and of ISO 8601. The first two do not know of the 29th of February, and the third takes a
  zone for a fraction of a second.
Trusted boundary: the definitions of the three notations
Main exports: convertDate_notations_iff
-/
import Snert.CModel.Numeral
import Snert.Util.ConvertDate

namespace Snert

open CModel Lists

/-! ### Dates, times and zones -/

/-- The number of days of a month of the Gregorian calendar. -/
def daysInMonth (year month : Nat) : Nat :=
  if month = 2 then if year % 4 = 0 ∧ (year % 100 ≠ 0 ∨ year % 400 = 0) then 29 else 28
  else if month ∈ [4, 6, 9, 11] then 30
  else 31

/-- A date that has a year of four digits, from 1970 on, and a time, which may be a leap second. -/
structure Moment where
  year : Nat
  month : Nat
  day : Nat
  hour : Nat
  minute : Nat
  second : Nat
  year_ge : 1970 ≤ year
  year_le : year ≤ 9999
  month_pos : 1 ≤ month
  month_le : month ≤ 12
  day_pos : 1 ≤ day
  day_le : day ≤ daysInMonth year month
  hour_le : hour ≤ 23
  minute_le : minute ≤ 59
  second_le : second ≤ 60

/-- A zone: two digits of hours and two of minutes. -/
structure Zone where
  west : Bool
  hours : Nat
  minutes : Nat
  hours_le : hours ≤ 99
  minutes_le : minutes ≤ 59

/-- The offset of a zone. -/
def Zone.seconds (zone : Zone) : Int :=
  let offset : Int := zone.hours * 3600 + zone.minutes * 60
  if zone.west then -offset else offset

/-- The value that `convertToGmt` gives. -/
def Moment.gmt (m : Moment) (zone : Int) : Option Int :=
  convertToGmt m.year ((m.month : Int) - 1) m.day m.hour m.minute m.second zone

/-! ### Notations -/

/-- The last digits of a number. -/
def fixedWidth : Nat → Nat → List Octet
  | 0, _ => []
  | width + 1, n => fixedWidth width (n / 10) ++ [ch (n % 10).digitChar]

def Zone.text (zone : Zone) : List Octet :=
  (if zone.west then ch '-' else ch '+') :: (fixedWidth 2 zone.hours ++ fixedWidth 2 zone.minutes)

def monthName (month : Nat) : List Octet :=
  ascii (["Jan", "Feb", "Mar", "Apr", "May", "Jun", "Jul", "Aug", "Sep", "Oct", "Nov",
    "Dec"].getD (month - 1) "")

def weekdayName (weekday : Fin 7) : List Octet :=
  ascii (["Mon", "Tue", "Wed", "Thu", "Fri", "Sat", "Sun"].getD weekday "")

/-- The time with colons. -/
def timeText (m : Moment) : List Octet :=
  fixedWidth 2 m.hour ++ ch ':' :: (fixedWidth 2 m.minute ++ ch ':' :: fixedWidth 2 m.second)

/-- The day in the notation of RFC 2822: one that is below 10 may have one digit or two. -/
def dayText (padded : Bool) (m : Moment) : List Octet :=
  if padded then fixedWidth 2 m.day else numeral 10 m.day

/-- The notation of RFC 2822 without a day of the week. -/
def rfc2822Date (padded : Bool) (m : Moment) (zone : Zone) : List Octet :=
  dayText padded m ++ ch ' ' :: (monthName m.month ++ ch ' ' :: (fixedWidth 4 m.year ++ ch ' ' ::
    (timeText m ++ ch ' ' :: zone.text)))

/-- The notation of RFC 2822. -/
def rfc2822Text (weekday : Option (Fin 7)) (padded : Bool) (m : Moment) (zone : Zone) :
    List Octet :=
  match weekday with
  | none => rfc2822Date padded m zone
  | some weekday => weekdayName weekday ++ ch ',' :: ch ' ' :: rfc2822Date padded m zone

/-- The notation of `ctime` without a day of the week, and a zone behind it. -/
def ctimeDate (m : Moment) (zone : Zone) : List Octet :=
  monthName m.month ++ ch ' ' :: ((if m.day < 10 then [ch ' '] else []) ++ (numeral 10 m.day ++
    ch ' ' :: (timeText m ++ ch ' ' :: (fixedWidth 4 m.year ++ ch ' ' :: zone.text))))

/-- The notation of `ctime`, and a zone behind it. -/
def ctimeText (weekday : Fin 7) (m : Moment) (zone : Zone) : List Octet :=
  weekdayName weekday ++ ch ' ' :: ctimeDate m zone

/-- The notation of ISO 8601, with or without separators. -/
def iso8601Text (separated : Bool) (m : Moment) (zone : Zone) : List Octet :=
  let dash := if separated then [ch '-'] else []
  let colon := if separated then [ch ':'] else []
  fixedWidth 4 m.year ++ (dash ++ (fixedWidth 2 m.month ++ (dash ++ (fixedWidth 2 m.day ++ ch 'T' ::
    (fixedWidth 2 m.hour ++ (colon ++ (fixedWidth 2 m.minute ++ (colon ++ (fixedWidth 2 m.second ++
      zone.text)))))))))

/-- A notation is read to its end, and gives the value of its date, time and zone. -/
def Converted (text : List Octet) (m : Moment) (zone : Zone) : Prop :=
  ∃ gmt, m.gmt zone.seconds = some gmt ∧ convertDate text = some (gmt, [])

/-! ### Digits -/

theorem length_fixedWidth (width n : Nat) : (fixedWidth width n).length = width := by
  induction width generalizing n with
  | zero => rfl
  | succ width ih => rw [fixedWidth, List.length_append, ih, List.length_singleton]

theorem isDigit_digitChar {d : Nat} (h : d < 10) : isDigit 10 (ch d.digitChar) = true := by
  rw [isDigit, digitValue_digitChar (by omega)]
  exact decide_eq_true h

theorem isDigit_fixedWidth (width n : Nat) : ∀ c ∈ fixedWidth width n, isDigit 10 c = true := by
  induction width generalizing n with
  | zero => exact fun _ hc => nomatch hc
  | succ width ih =>
      intro c hc
      rcases List.mem_append.mp hc with hc | hc
      · exact ih _ c hc
      · rw [List.mem_singleton.mp hc]
        exact isDigit_digitChar (Nat.mod_lt _ (by decide))

theorem digitsValue_fixedWidth {width n : Nat} (h : n < 10 ^ width) :
    digitsValue 10 (fixedWidth width n) = n := by
  induction width generalizing n with
  | zero =>
      obtain rfl : n = 0 := Nat.lt_one_iff.mp h
      rfl
  | succ width ih =>
      have hmod : n % 10 < 16 := Nat.lt_trans (Nat.mod_lt _ (by decide)) (by decide)
      rw [fixedWidth, digitsValue_append, ih (Nat.div_lt_of_lt_mul (by rwa [← Nat.pow_succ'])),
        digitValue_digitChar hmod, Option.getD_some]
      omega

theorem isDigits_fixedWidth {width : Nat} (h : 0 < width) (n : Nat) :
    IsDigits 10 (fixedWidth width n) :=
  ⟨List.ne_nil_of_length_pos (by rwa [length_fixedWidth]), isDigit_fixedWidth width n⟩

/-! ### Elements -/

theorem skip_blank (s : List Octet) :
    skipCommentWhitespace (ch ' ' :: s) = skipCommentWhitespace s := by
  rw [skipCommentWhitespace, skipComments, if_neg (by decide), if_pos (by decide),
    skipCommentWhitespace]

theorem skip_solid {c : Octet} (hspace : isspace c = false) (hopen : c ≠ ch '(') (s : List Octet) :
    skipCommentWhitespace (c :: s) = c :: s := by
  rw [skipCommentWhitespace, skipComments, if_neg hopen, hspace, if_neg Bool.false_ne_true]

theorem digit_plain {c : Octet} (h : isDigit 10 c = true) :
    isspace c = false ∧ c ∉ ascii "(-:TZ,.+" ∧ ∀ name ∈ months ++ days, peek name ≠ c := by
  have hall : ∀ c : Octet, isDigit 10 c = true →
      isspace c = false ∧ c ∉ ascii "(-:TZ,.+" ∧ ∀ name ∈ months ++ days, peek name ≠ c :=
    forall_octet (by decide +kernel)
  exact hall c h

theorem skip_digit {c : Octet} (h : isDigit 10 c = true) (s : List Octet) :
    skipCommentWhitespace (c :: s) = c :: s :=
  skip_solid (digit_plain h).1 (fun heq => (digit_plain h).2.1 (heq ▸ by decide)) s

/-- A number stands at the start of a string, behind comments and white space. -/
def Reads (s : List Octet) (n : Nat) (rest : List Octet) : Prop :=
  strtol (skipCommentWhitespace s) 10 = ((n : Int), rest) ∧ rest ≠ skipCommentWhitespace s

theorem reads_digits {digits rest : List Octet} (h : IsDigits 10 digits)
    (hsmall : digitsValue 10 digits < 2 ^ 63) (hrest : isDigit 10 (peek rest) = false) :
    Reads (digits ++ rest) (digitsValue 10 digits) rest := by
  have hskip : skipCommentWhitespace (digits ++ rest) = digits ++ rest := by
    obtain ⟨hne, hall⟩ := h
    cases digits with
    | nil => exact absurd rfl hne
    | cons c digits => exact skip_digit (hall c List.mem_cons_self) _
  refine ⟨?_, fun heq => ?_⟩
  · rw [hskip, strtol_stop h hrest, clampLong_natCast hsmall]
  · have hlength := congrArg List.length (heq.trans hskip)
    have hpos := List.length_pos_of_ne_nil h.1
    rw [List.length_append] at hlength
    omega

theorem Reads.blank {s rest : List Octet} {n : Nat} (h : Reads s n rest) :
    Reads (ch ' ' :: s) n rest := by
  rwa [Reads, skip_blank]

theorem reads_fixedWidth {width n : Nat} (hwidth : 0 < width) (hwide : width ≤ 4)
    (h : n < 10 ^ width) {rest : List Octet} (hrest : isDigit 10 (peek rest) = false) :
    Reads (fixedWidth width n ++ rest) n rest := by
  have hvalue := digitsValue_fixedWidth h
  have hsmall : n < 2 ^ 63 :=
    h.trans_le ((Nat.pow_le_pow_right (by decide) hwide).trans (by decide))
  have hreads := reads_digits (isDigits_fixedWidth hwidth n) (by rwa [hvalue]) hrest
  rwa [hvalue] at hreads

theorem reads_numeral {n : Nat} (h : n < 2 ^ 63) {rest : List Octet}
    (hrest : isDigit 10 (peek rest) = false) : Reads (numeral 10 n ++ rest) n rest := by
  obtain ⟨hdigits, hvalue⟩ := numeral_reads 10 (by decide) (by decide) n
  have hreads := reads_digits hdigits (by rwa [hvalue]) hrest
  rwa [hvalue] at hreads

theorem convertMonth_name {month : Nat} (hpos : 1 ≤ month) (hle : month ≤ 12) (rest : List Octet) :
    skipCommentWhitespace (monthName month ++ rest) = monthName month ++ rest ∧
      convertMonth (monthName month ++ rest) = ((month : Int) - 1, some rest) := by
  have hall : ∀ i : Fin 12, (monthName (i + 1)).length = 3 ∧
      isspace (peek (monthName (i + 1))) = false ∧ peek (monthName (i + 1)) ≠ ch '(' ∧
      months.idxOf (monthName (i + 1)) = i := by decide
  obtain ⟨hlength, hspace, hopen, hindex⟩ := hall ⟨month - 1, by omega⟩
  have hmonth : month - 1 + 1 = month := Nat.sub_add_cancel hpos
  dsimp only at hlength hspace hopen hindex
  rw [hmonth] at hlength hspace hopen hindex
  have hskip : skipCommentWhitespace (monthName month ++ rest) = monthName month ++ rest := by
    cases hname : monthName month with
    | nil => rw [hname] at hlength; cases hlength
    | cons c name =>
        rw [hname] at hspace hopen
        exact skip_solid hspace hopen _
  refine ⟨hskip, ?_⟩
  rw [convertMonth, hskip, List.take_left' hlength, List.drop_left' hlength, hindex, if_pos (by omega)]
  refine Prod.ext ?_ rfl
  dsimp only
  omega

theorem convertWeekDay_name (weekday : Fin 7) (rest : List Octet) :
    skipCommentWhitespace (weekdayName weekday ++ rest) = weekdayName weekday ++ rest ∧
      (convertWeekDay (weekdayName weekday ++ rest)).2 = some rest := by
  have hall : ∀ i : Fin 7, (weekdayName i).length = 3 ∧
      isspace (peek (weekdayName i)) = false ∧ peek (weekdayName i) ≠ ch '(' ∧
      days.idxOf (weekdayName i) < 21 := by decide
  obtain ⟨hlength, hspace, hopen, hindex⟩ := hall weekday
  have hskip : skipCommentWhitespace (weekdayName weekday ++ rest) =
      weekdayName weekday ++ rest := by
    cases hname : weekdayName weekday with
    | nil => rw [hname] at hlength; cases hlength
    | cons c name =>
        rw [hname] at hspace hopen
        exact skip_solid hspace hopen _
  refine ⟨hskip, ?_⟩
  rw [convertWeekDay, hskip, List.take_left' hlength, List.drop_left' hlength, if_pos hindex]

theorem digit_no_name {c : Octet} (h : isDigit 10 c = true) (s : List Octet) :
    convertMonth (c :: s) = (36, none) ∧ (convertWeekDay (c :: s)).2 = none := by
  have hno : ∀ name ∈ months ++ days, name ≠ (c :: s).take 3 := fun name hname heq =>
    (digit_plain h).2.2 name hname (by rw [heq]; rfl)
  have hmonth : months.idxOf ((c :: s).take 3) = 36 := List.idxOf_eq_length fun hmem =>
    hno _ (List.mem_append_left _ hmem) rfl
  have hday : days.idxOf ((c :: s).take 3) = 21 := List.idxOf_eq_length fun hmem =>
    hno _ (List.mem_append_right _ hmem) rfl
  rw [convertMonth, convertWeekDay, skip_digit h, hmonth, hday, if_neg (by decide), if_neg (by decide)]
  exact ⟨rfl, rfl⟩

/-! ### Zones -/

theorem strtol_sign (west : Bool) {digits : List Octet} (h : IsDigits 10 digits)
    (hsmall : digitsValue 10 digits < 2 ^ 63) :
    strtol ((if west then ch '-' else ch '+') :: digits) 10 =
      (if west then -(digitsValue 10 digits : Int) else digitsValue 10 digits, []) := by
  have hplain := numberPrefix_digits (by decide : 10 ≤ 16) h.2
  have htake : digits.takeWhile (isDigit 10) = digits := List.takeWhile_eq_self_iff.mpr h.2
  have hdrop : digits.dropWhile (isDigit 10) = [] := List.dropWhile_eq_nil_iff.mpr h.2
  have hsign : numberSign (((if west then ch '-' else ch '+') :: digits).dropWhile isspace) =
      (west, digits) := by
    cases west with
    | false =>
        rw [if_neg Bool.false_ne_true, List.dropWhile_cons_of_neg (by decide)]
        rfl
    | true =>
        rw [if_pos rfl, List.dropWhile_cons_of_neg (by decide)]
        rfl
  unfold strtol
  dsimp only
  rw [hsign]
  dsimp only
  rw [hplain, htake, hdrop, if_neg h.1]
  refine Prod.ext ?_ rfl
  cases west with
  | false => exact clampLong_natCast hsmall
  | true =>
      show clampLong (-(digitsValue 10 digits : Int)) = -(digitsValue 10 digits : Int)
      unfold clampLong
      omega

theorem Zone.digits (zone : Zone) :
    IsDigits 10 (fixedWidth 2 zone.hours ++ fixedWidth 2 zone.minutes) ∧
      digitsValue 10 (fixedWidth 2 zone.hours ++ fixedWidth 2 zone.minutes) =
        zone.hours * 100 + zone.minutes := by
  have hboth : fixedWidth 2 zone.hours ++ fixedWidth 2 zone.minutes =
      fixedWidth 4 (zone.hours * 100 + zone.minutes) := by
    have hminutes := zone.minutes_le
    have h1 : (zone.hours * 100 + zone.minutes) % 10 = zone.minutes % 10 := by omega
    have h2 : (zone.hours * 100 + zone.minutes) / 10 % 10 = zone.minutes / 10 % 10 := by omega
    have h3 : (zone.hours * 100 + zone.minutes) / 10 / 10 = zone.hours := by omega
    simp [fixedWidth, h1, h2, h3]
  rw [hboth]
  refine ⟨isDigits_fixedWidth (by decide) _, digitsValue_fixedWidth ?_⟩
  have hhours := zone.hours_le
  have hminutes := zone.minutes_le
  omega

theorem convertTimeZone_text (zone : Zone) :
    convertTimeZone (ch ' ' :: zone.text) = some (zone.seconds, []) := by
  obtain ⟨hdigits, hvalue⟩ := zone.digits
  have hhours := zone.hours_le
  have hminutes := zone.minutes_le
  have hskip : skipCommentWhitespace (ch ' ' :: zone.text) = zone.text := by
    rw [skip_blank, Zone.text]
    cases zone.west with
    | false => exact skip_solid (by decide) (by decide) _
    | true => exact skip_solid (by decide) (by decide) _
  have hread : strtol zone.text 10 = (if zone.west then -((zone.hours * 100 + zone.minutes : Nat) : Int)
      else (zone.hours * 100 + zone.minutes : Nat), []) := by
    rw [Zone.text, strtol_sign zone.west hdigits (by rw [hvalue]; omega), hvalue]
  have hne : [] ≠ zone.text := (List.cons_ne_nil _ _).symm
  have hhundred : ((zone.hours * 100 + zone.minutes : Nat) : Int).tdiv 100 = zone.hours ∧
      ((zone.hours * 100 + zone.minutes : Nat) : Int).tmod 100 = zone.minutes := by
    rw [Int.tdiv_eq_ediv_of_nonneg (Int.natCast_nonneg _),
      Int.tmod_eq_emod_of_nonneg (Int.natCast_nonneg _)]
    omega
  unfold convertTimeZone
  dsimp only
  rw [hskip, hread, if_neg hne]
  rw [Option.bind_eq_bind, Option.bind_some]
  dsimp only
  cases hwest : zone.west with
  | false =>
      rw [if_neg Bool.false_ne_true, if_neg (by omega), hhundred.1, hhundred.2, Zone.seconds, hwest]
      rfl
  | true =>
      rw [if_pos rfl, if_neg (by omega), Int.neg_tdiv, Int.neg_tmod, hhundred.1, hhundred.2,
        Zone.seconds, hwest, if_pos rfl]
      refine congrArg some (Prod.ext ?_ rfl)
      dsimp only
      omega

/-! ### RFC 2822 and `ctime` -/

theorem convertYMD_reads {date : DateTime} {s t u rest : List Octet} {day year : Nat} {month : Int}
    (hday : Reads s day t) (hmonth : convertMonth (skipCommentWhitespace t) = (month, some u))
    (hyear : Reads u year rest) :
    convertYMD date s =
      if (day : Int) < 1 ∨ daysPerMonth.getD month.toNat 0 < day then
        ({ date with day := day, month := month }, none)
      else ({ date with day := day, month := month, year := year }, some rest) := by
  unfold convertYMD
  dsimp only
  rw [hday.1]
  dsimp only
  rw [if_neg hday.2, hmonth]
  dsimp only
  rw [hyear.1]
  dsimp only
  rw [if_neg hyear.2]

theorem convertHMS_reads {date : DateTime} {s t u rest : List Octet} {hour minute second : Nat}
    (hhour : Reads s hour (ch ':' :: t)) (hminute : Reads t minute (ch ':' :: u))
    (hsecond : Reads u second rest) (hle : hour ≤ 23 ∧ minute ≤ 59 ∧ second ≤ 60) :
    convertHMS date s =
      ({ date with hour := hour, minute := minute, second := second }, some rest) := by
  have hvalid : validTime { date with hour := hour, minute := minute, second := second } := by
    unfold validTime
    dsimp only
    omega
  unfold convertHMS
  dsimp only
  rw [hhour.1]
  dsimp only
  rw [if_neg (not_or.mpr ⟨hhour.2, not_not.mpr (peek_cons _ t)⟩), List.tail_cons, hminute.1]
  dsimp only
  rw [if_neg hminute.2, if_pos (peek_cons _ u), List.tail_cons, hsecond.1]
  dsimp only
  rw [if_neg (not_or.mpr ⟨hsecond.2, not_not.mpr hvalid⟩)]

theorem convertHMS_text (date : DateTime) (m : Moment) {s rest : List Octet}
    (hs : skipCommentWhitespace s = skipCommentWhitespace (timeText m ++ rest))
    (hrest : isDigit 10 (peek rest) = false) :
    convertHMS date s =
      ({ date with hour := m.hour, minute := m.minute, second := m.second }, some rest) := by
  have hcolon : ∀ t, isDigit 10 (peek (ch ':' :: t)) = false := fun _ => by
    rw [peek_cons]
    decide
  have hhour : m.hour < 10 ^ 2 := Nat.lt_of_le_of_lt m.hour_le (by decide)
  have hminute : m.minute < 10 ^ 2 := Nat.lt_of_le_of_lt m.minute_le (by decide)
  have hsecond : m.second < 10 ^ 2 := Nat.lt_of_le_of_lt m.second_le (by decide)
  have htext : timeText m ++ rest = fixedWidth 2 m.hour ++ ch ':' :: (fixedWidth 2 m.minute ++
      ch ':' :: (fixedWidth 2 m.second ++ rest)) := by
    simp [timeText]
  have hfirst : Reads s m.hour (ch ':' :: (fixedWidth 2 m.minute ++
      ch ':' :: (fixedWidth 2 m.second ++ rest))) := by
    rw [Reads, hs, htext]
    exact reads_fixedWidth (by decide) (by decide) hhour (hcolon _)
  exact convertHMS_reads hfirst
    (reads_fixedWidth (by decide) (by decide) hminute (hcolon _))
    (reads_fixedWidth (by decide) (by decide) hsecond hrest)
    ⟨m.hour_le, m.minute_le, m.second_le⟩

theorem convertSyslog_reads {date : DateTime} {s t u : List Octet} {month : Int} {day : Nat}
    (hmonth : convertMonth (skipCommentWhitespace s) = (month, some t)) (hday : Reads t day u) :
    convertSyslog date s =
      if (day : Int) < 1 ∨ daysPerMonth.getD month.toNat 0 < day then
        ({ date with month := month, day := day }, none)
      else convertHMS { date with month := month, day := day } u := by
  unfold convertSyslog
  dsimp only
  rw [hmonth]
  dsimp only
  rw [hday.1]
  dsimp only
  by_cases hrange : (day : Int) < 1 ∨ daysPerMonth.getD month.toNat 0 < day
  · rw [if_pos (.inr hrange), if_pos hrange]
  · rw [if_neg (not_or.mpr ⟨hday.2, hrange⟩), if_neg hrange]

theorem Moment.daysPerMonth_eq (m : Moment) : daysPerMonth.getD ((m.month : Int) - 1).toNat 0 =
    if m.month = 2 then 28 else if m.month ∈ [4, 6, 9, 11] then 30 else 31 := by
  have htable : ∀ i : Fin 12, daysPerMonth.getD i 0 =
      if i.val + 1 = 2 then 28 else if i.val + 1 ∈ [4, 6, 9, 11] then 30 else 31 := by decide
  have hmonth := m.month_le
  have hlength := htable ⟨m.month - 1, by omega⟩
  dsimp only at hlength
  rw [Nat.sub_add_cancel m.month_pos] at hlength
  rw [← hlength]
  exact congrArg (daysPerMonth.getD · 0) (by omega)

theorem Moment.daysPerMonth_lt_iff (m : Moment) :
    ((m.day : Int) < 1 ∨ daysPerMonth.getD ((m.month : Int) - 1).toNat 0 < m.day) ↔
      m.month = 2 ∧ m.day = 29 := by
  have hpos := m.day_pos
  have hday := m.day_le
  rw [m.daysPerMonth_eq]
  unfold daysInMonth at hday
  by_cases htwo : m.month = 2
  · rw [if_pos htwo] at hday ⊢
    have hle : m.day ≤ 29 := hday.trans (by split <;> decide)
    omega
  · rw [if_neg htwo] at hday ⊢
    by_cases hthirty : m.month ∈ [4, 6, 9, 11]
    · rw [if_pos hthirty] at hday ⊢
      omega
    · rw [if_neg hthirty] at hday ⊢
      omega

theorem convertISO8601_short {digits : List Octet} (hdigits : ∀ c ∈ digits, isDigit 10 c = true)
    (hlength : digits.length < 4) {c : Octet} (hc : isDigit 10 c = false) (date : DateTime)
    (rest : List Octet) : ∃ date', convertISO8601 date (digits ++ c :: rest) = (date', none) := by
  have htake : (digits ++ c :: rest).take 4 = digits ++ c :: rest.take (3 - digits.length) := by
    obtain ⟨room, hroom⟩ : ∃ room, 4 - digits.length = room + 1 := ⟨3 - digits.length, by omega⟩
    rw [List.take_append, List.take_of_length_le (by omega), hroom, List.take_succ_cons]
    have heq : room = 3 - digits.length := by omega
    rw [heq]
  have hread : ((digits ++ c :: rest).take 4).takeWhile (isDigit 10) = digits := by
    rw [htake, takeWhile_append_delimiter hc, List.takeWhile_eq_self_iff]
    exact hdigits
  have hcount : (digits ++ c :: rest).length -
      ((digits ++ c :: rest).drop digits.length).length ≠ 4 := by
    rw [List.length_drop, List.length_append]
    omega
  have hfixed : fixedDigits (digits ++ c :: rest) 4 = (digitsValue 10 digits, none) := by
    unfold fixedDigits strntoul
    dsimp only
    rw [hread, if_neg hcount]
  exact ⟨{ date with year := digitsValue 10 digits }, by rw [convertISO8601, hfixed]⟩

/-- The variables that a notation sets. -/
def Moment.date (m : Moment) : DateTime :=
  ⟨m.year, (m.month : Int) - 1, m.day, m.hour, m.minute, m.second⟩

theorem isLeapYear_natCast (year : Nat) :
    isLeapYear year ↔ year % 4 = 0 ∧ (year % 100 ≠ 0 ∨ year % 400 = 0) := by
  have hmod : ∀ n : Nat, (year : Int).tmod n = 0 ↔ year % n = 0 := fun n => by
    rw [Int.tmod_eq_emod_of_nonneg (Int.natCast_nonneg year)]
    omega
  have hfours : (year : Int).tmod 400 = 0 ↔ year % 400 = 0 := hmod 400
  have hcentury : (year : Int).tmod 100 = 0 ↔ year % 100 = 0 := hmod 100
  unfold isLeapYear
  by_cases h400 : year % 400 = 0
  · rw [if_pos (hfours.mpr h400)]
    exact iff_of_true rfl ⟨by omega, .inr h400⟩
  · rw [if_neg (mt hfours.mp h400)]
    by_cases h100 : year % 100 = 0
    · rw [if_pos (hcentury.mpr h100)]
      exact iff_of_false Bool.false_ne_true (by omega)
    · rw [if_neg (mt hcentury.mp h100), decide_eq_true_iff]
      exact (hmod 4).trans (by omega)

theorem Moment.gmt_eq (m : Moment) : ∃ gmt : Int, ∀ zone, m.gmt zone = some (gmt - zone) := by
  have hyear := m.year_ge
  have hmonth := m.month_le
  have hmonth' := m.month_pos
  have hpos := m.day_pos
  have hday := m.day_le
  have henough : ¬ ((if (m.month : Int) - 1 = 1 ∧ isLeapYear m.year then 1 else 0) +
      daysPerMonth.getD ((m.month : Int) - 1).toNat 0 < m.day) := by
    have hyears := isLeapYear_natCast m.year
    rw [m.daysPerMonth_eq]
    unfold daysInMonth at hday
    by_cases htwo : m.month = 2
    · rw [if_pos htwo] at hday ⊢
      by_cases hleap : m.year % 4 = 0 ∧ (m.year % 100 ≠ 0 ∨ m.year % 400 = 0)
      · rw [if_pos hleap] at hday
        rw [if_pos ⟨by omega, hyears.mpr hleap⟩]
        omega
      · rw [if_neg hleap] at hday
        rw [if_neg fun h => hleap (hyears.mp h.2)]
        omega
    · rw [if_neg htwo] at hday ⊢
      rw [if_neg (fun h => htwo (by omega))]
      split at hday
      · rw [if_pos ‹_›]
        omega
      · rw [if_neg ‹_›]
        omega
  have hyday : ∃ yday, convertDayOfYear m.year ((m.month : Int) - 1) m.day = some yday := by
    rw [convertDayOfYear, if_neg (by omega), if_neg henough]
    split
    · exact ⟨_, rfl⟩
    · exact ⟨_, rfl⟩
  obtain ⟨yday, hyday⟩ := hyday
  have hgmt : ∀ zone, m.gmt zone = some (m.second + m.minute * 60 + m.hour * 3600 + yday * 86400 +
      ((m.year : Int) - 1970) * 31536000 + ((m.year : Int) - 1969).tdiv 4 * 86400 - zone) := by
    intro zone
    rw [Moment.gmt, convertToGmt, if_neg (by omega), hyday]
    rfl
  exact ⟨_, hgmt⟩

theorem convertDate_of_notation {m : Moment} {text s : List Octet}
    (hs : skipWeekDay (skipCommentWhitespace text) = s) {zone : Int}
    (h : convertNotations ⟨0, 0, 0, 0, 0, 0⟩ s = some (m.date, zone, [])) :
    convertDate text = (m.gmt zone).map (·, []) := by
  have hyear := m.year_ge
  have hfull : fullYear m.year = m.year := by
    rw [fullYear, if_neg (by omega), if_neg (by omega)]
  have hpositive : ¬ m.date.year < 0 := Int.not_lt.mpr (Int.natCast_nonneg m.year)
  unfold convertDate
  dsimp only
  rw [hs, h, Option.bind_eq_bind, Option.bind_some]
  refine (if_neg hpositive).trans ?_
  have hgmt : convertToGmt (fullYear m.date.year) m.date.month m.date.day m.date.hour m.date.minute
      m.date.second zone = m.gmt zone := by
    rw [show m.date.year = m.year from rfl, hfull]
    rfl
  rw [hgmt]
  cases m.gmt zone with
  | none => rfl
  | some gmt => rfl

theorem convertDate_of_none {text s : List Octet}
    (hs : skipWeekDay (skipCommentWhitespace text) = s)
    (h : convertNotations ⟨0, 0, 0, 0, 0, 0⟩ s = none) : convertDate text = none := by
  unfold convertDate
  dsimp only
  rw [hs, h]
  rfl

theorem Moment.day_le_31 (m : Moment) : m.day ≤ 31 :=
  m.day_le.trans (by
    unfold daysInMonth
    split
    · split <;> decide
    · split <;> decide)

theorem dayText_digits (padded : Bool) (m : Moment) : IsDigits 10 (dayText padded m) ∧
    digitsValue 10 (dayText padded m) = m.day ∧ (dayText padded m).length < 4 := by
  have hday := m.day_le_31
  cases padded with
  | false =>
      have hshort : ∀ i : Fin 32, (numeral 10 i).length < 4 := by decide
      obtain ⟨hdigits, hvalue⟩ := numeral_reads 10 (by decide) (by decide) m.day
      exact ⟨hdigits, hvalue, hshort ⟨m.day, by omega⟩⟩
  | true =>
      refine ⟨isDigits_fixedWidth (by decide) _, digitsValue_fixedWidth (by omega), ?_⟩
      rw [dayText, if_pos rfl, length_fixedWidth]
      decide

theorem convertNotations_rfc2822 (padded : Bool) (m : Moment) (zone : Zone) {s : List Octet}
    (hs : s = rfc2822Date padded m zone ∨ s = ch ' ' :: rfc2822Date padded m zone)
    (date : DateTime) : convertNotations date s =
      if m.month = 2 ∧ m.day = 29 then none else some (m.date, zone.seconds, []) := by
  obtain ⟨hdigits, hvalue, hlength⟩ := dayText_digits padded m
  have hyear := m.year_le
  have hday : m.day < 2 ^ 63 := Nat.lt_of_le_of_lt m.day_le_31 (by decide)
  have hblank : ∀ t, isDigit 10 (peek (ch ' ' :: t)) = false := fun _ => by
    rw [peek_cons]
    decide
  have hskip : skipCommentWhitespace s = skipCommentWhitespace (rfc2822Date padded m zone) := by
    rcases hs with rfl | rfl
    · rfl
    · exact skip_blank _
  -- The notation of ISO 8601 has four digits first.
  obtain ⟨date₁, hiso⟩ : ∃ date', convertISO8601 date s = (date', none) := by
    rcases hs with rfl | rfl
    · exact convertISO8601_short hdigits.2 hlength (by decide) date _
    · exact convertISO8601_short (List.forall_mem_nil _) (by decide) (by decide) date
        (rfc2822Date padded m zone)
  -- That of `ctime` begins with a month.
  obtain ⟨date₂, hctime⟩ : ∃ date', convertCtime date₁ s = (date', none) := by
    obtain ⟨c, digits, hcons⟩ := List.exists_cons_of_ne_nil hdigits.1
    have hc : isDigit 10 c = true := hdigits.2 c (by rw [hcons]; exact List.mem_cons_self)
    refine ⟨{ date₁ with month := 36 }, ?_⟩
    rw [convertCtime, convertSyslog, hskip, rfc2822Date, hcons, List.cons_append, skip_digit hc,
      (digit_no_name hc _).1]
  have hreads : Reads s m.day (ch ' ' :: (monthName m.month ++ ch ' ' :: (fixedWidth 4 m.year ++
      ch ' ' :: (timeText m ++ ch ' ' :: zone.text)))) := by
    have h := reads_digits hdigits (by rwa [hvalue]) (hblank (monthName m.month ++ ch ' ' ::
      (fixedWidth 4 m.year ++ ch ' ' :: (timeText m ++ ch ' ' :: zone.text))))
    rw [hvalue] at h
    rw [Reads, hskip]
    exact h
  have hmonth := convertMonth_name m.month_pos m.month_le
    (ch ' ' :: (fixedWidth 4 m.year ++ ch ' ' :: (timeText m ++ ch ' ' :: zone.text)))
  have hymd := @convertYMD_reads date₂ _ _ _ _ _ _ _ hreads
    (by rw [skip_blank, hmonth.1]; exact hmonth.2)
    (reads_fixedWidth (by decide) (by decide) (Nat.lt_of_le_of_lt hyear (by decide))
      (hblank (timeText m ++ ch ' ' :: zone.text))).blank
  rw [convertNotations, hiso]
  dsimp only
  rw [hctime]
  dsimp only
  rw [hymd]
  by_cases hleap : m.month = 2 ∧ m.day = 29
  · rw [if_pos (m.daysPerMonth_lt_iff.mpr hleap), if_pos hleap]
  · rw [if_neg (mt m.daysPerMonth_lt_iff.mp hleap), if_neg hleap]
    dsimp only
    rw [if_neg (List.cons_ne_nil _ _), convertHMS_text _ m (skip_blank _) (hblank _)]
    dsimp only
    rw [optionalZone, if_neg (List.cons_ne_nil _ _), convertTimeZone_text]
    rfl

theorem strtol_monthName {month : Nat} (hpos : 1 ≤ month) (hle : month ≤ 12) (rest : List Octet) :
    (strtol (monthName month ++ rest) 10).2 = monthName month ++ rest := by
  have hall : ∀ i : Fin 12, ∃ c name, monthName (i + 1) = c :: name ∧ isspace c = false ∧
      c ≠ ch '-' ∧ c ≠ ch '+' ∧ isDigit 10 c = false := by
    intro i
    refine ⟨peek (monthName (i + 1)), (monthName (i + 1)).tail, ?_⟩
    revert i
    decide
  obtain ⟨c, name, hname, hspace, hminus, hplus, hdigit⟩ := hall ⟨month - 1, by omega⟩
  dsimp only at hname
  rw [Nat.sub_add_cancel hpos] at hname
  have hnone : isDigit 10 (peek (numberSign (c :: (name ++ rest))).2) = false := by
    rw [numberSign, if_neg hminus, if_neg hplus]
    exact hdigit
  rw [hname, List.cons_append, strtol_without_digits (s := c :: (name ++ rest)) hspace hnone]

theorem convertNotations_ctime (m : Moment) (zone : Zone) (date : DateTime) :
    convertNotations date (ch ' ' :: ctimeDate m zone) =
      if m.month = 2 ∧ m.day = 29 then none else some (m.date, zone.seconds, []) := by
  have hyear : m.year < 10 ^ 4 := Nat.lt_of_le_of_lt m.year_le (by decide)
  have hblank : ∀ t, isDigit 10 (peek (ch ' ' :: t)) = false := fun _ => by
    rw [peek_cons]
    decide
  obtain ⟨date₁, hiso⟩ : ∃ date', convertISO8601 date (ch ' ' :: ctimeDate m zone) =
      (date', none) :=
    convertISO8601_short (List.forall_mem_nil _) (by decide) (by decide) date (ctimeDate m zone)
  have hname := convertMonth_name m.month_pos m.month_le
    (ch ' ' :: ((if m.day < 10 then [ch ' '] else []) ++ (numeral 10 m.day ++ ch ' ' ::
      (timeText m ++ ch ' ' :: (fixedWidth 4 m.year ++ ch ' ' :: zone.text)))))
  have hmonth : convertMonth (skipCommentWhitespace (ch ' ' :: ctimeDate m zone)) =
      ((m.month : Int) - 1, some (ch ' ' :: ((if m.day < 10 then [ch ' '] else []) ++
        (numeral 10 m.day ++ ch ' ' :: (timeText m ++ ch ' ' :: (fixedWidth 4 m.year ++ ch ' ' ::
          zone.text)))))) := by
    rw [skip_blank, ctimeDate, hname.1]
    exact hname.2
  have hreads : Reads (ch ' ' :: ((if m.day < 10 then [ch ' '] else []) ++ (numeral 10 m.day ++
      ch ' ' :: (timeText m ++ ch ' ' :: (fixedWidth 4 m.year ++ ch ' ' :: zone.text))))) m.day
      (ch ' ' :: (timeText m ++ ch ' ' :: (fixedWidth 4 m.year ++ ch ' ' :: zone.text))) := by
    have h := reads_numeral (Nat.lt_of_le_of_lt m.day_le_31 (by decide)) (hblank (timeText m ++ ch ' ' ::
      (fixedWidth 4 m.year ++ ch ' ' :: zone.text)))
    split
    · exact h.blank.blank
    · exact h.blank
  have hyears : Reads (ch ' ' :: (fixedWidth 4 m.year ++ ch ' ' :: zone.text)) m.year
      (ch ' ' :: zone.text) :=
    (reads_fixedWidth (by decide) (by decide) hyear (hblank zone.text)).blank
  rw [convertNotations, hiso]
  dsimp only
  rw [convertCtime, convertSyslog_reads hmonth hreads]
  by_cases hleap : m.month = 2 ∧ m.day = 29
  · rw [if_pos (m.daysPerMonth_lt_iff.mpr hleap), if_pos hleap]
    dsimp only
    have hnone := strtol_monthName m.month_pos m.month_le
      (ch ' ' :: ((if m.day < 10 then [ch ' '] else []) ++ (numeral 10 m.day ++ ch ' ' ::
        (timeText m ++ ch ' ' :: (fixedWidth 4 m.year ++ ch ' ' :: zone.text)))))
    rw [convertYMD, skip_blank, ctimeDate, hname.1]
    dsimp only
    rw [if_pos hnone]
  · rw [if_neg (mt m.daysPerMonth_lt_iff.mp hleap), if_neg hleap,
      convertHMS_text _ m (skip_blank _) (hblank _)]
    dsimp only
    rw [hyears.1]
    dsimp only
    rw [if_neg hyears.2]
    dsimp only
    rw [optionalZone, if_neg (List.cons_ne_nil _ _), convertTimeZone_text]
    rfl

/-! ### ISO 8601 -/

theorem strntoul_fixedWidth {width n : Nat} (h : n < 10 ^ width) (rest : List Octet) :
    strntoul (fixedWidth width n ++ rest) width = (n, rest) := by
  have hlength := length_fixedWidth width n
  have hall : (fixedWidth width n).takeWhile (isDigit 10) = fixedWidth width n :=
    List.takeWhile_eq_self_iff.mpr (isDigit_fixedWidth width n)
  rw [strntoul, List.take_left' hlength, hall, List.drop_left, digitsValue_fixedWidth h]

theorem fixedDigits_fixedWidth {width n : Nat} (h : n < 10 ^ width) (rest : List Octet) :
    fixedDigits (fixedWidth width n ++ rest) width = (n, some rest) := by
  have hlength : (fixedWidth width n ++ rest).length - rest.length = width := by
    rw [List.length_append, length_fixedWidth, Nat.add_sub_cancel]
  rw [fixedDigits, strntoul_fixedWidth h]
  dsimp only
  rw [if_pos hlength]

theorem skipOctet_separator {separator : Octet} (h : separator ∈ ascii "-:") (separated : Bool)
    (n : Nat) (rest : List Octet) :
    skipOctet [separator] ((if separated then [separator] else []) ++ (fixedWidth 2 n ++ rest)) =
      fixedWidth 2 n ++ rest := by
  cases separated with
  | true => exact if_pos ⟨List.cons_ne_nil _ _, List.mem_singleton_self _⟩
  | false =>
      obtain ⟨c, digits, hcons⟩ :=
        List.exists_cons_of_ne_nil (isDigits_fixedWidth (by decide : 0 < 2) n).1
      have hdigit : isDigit 10 c = true :=
        isDigit_fixedWidth 2 n c (by rw [hcons]; exact List.mem_cons_self)
      have hne : c ≠ separator := fun heq => (digit_plain hdigit).2.1 (by
        have hsubset : ∀ x ∈ ascii "-:", x ∈ ascii "(-:TZ,.+" := by decide
        exact hsubset c (heq ▸ h))
      rw [if_neg Bool.false_ne_true, List.nil_append, hcons, List.cons_append]
      exact if_neg fun hskip => hne (List.mem_singleton.mp hskip.2)

theorem convertISO8601Time_text (separated : Bool) (m : Moment) (zone : Zone) (date : DateTime) :
    convertISO8601Time date (fixedWidth 2 m.hour ++ ((if separated then [ch ':'] else []) ++
      (fixedWidth 2 m.minute ++ ((if separated then [ch ':'] else []) ++ (fixedWidth 2 m.second ++
        zone.text))))) =
      ({ date with hour := m.hour, minute := m.minute, second := m.second }, some []) := by
  have hcolon : ch ':' ∈ ascii "-:" := by decide
  have hhour : m.hour < 10 ^ 2 := Nat.lt_of_le_of_lt m.hour_le (by decide)
  have hminute : m.minute < 10 ^ 2 := Nat.lt_of_le_of_lt m.minute_le (by decide)
  have hsecond : m.second < 10 ^ 2 := Nat.lt_of_le_of_lt m.second_le (by decide)
  have hhours := zone.hours_le
  have hminutes := zone.minutes_le
  have hlength : ¬ (zone.text.length < (fixedWidth 2 m.second ++ zone.text).length ∧
      (fixedWidth 2 m.second ++ zone.text).length - zone.text.length ≠ 2) := by
    rw [List.length_append, length_fixedWidth]
    omega
  have hzone : (strtol (skipOctet [ch ',', ch '.'] zone.text) 10).2 = [] := by
    obtain ⟨hdigits, hvalue⟩ := zone.digits
    have hsign : peek zone.text ∉ [ch ',', ch '.'] := by
      rw [Zone.text, peek_cons]
      cases zone.west with
      | false => decide
      | true => decide
    have hplain : skipOctet [ch ',', ch '.'] zone.text = zone.text := if_neg (mt And.right hsign)
    rw [hplain, Zone.text, strtol_sign zone.west hdigits (by rw [hvalue]; omega)]
  rw [convertISO8601Time, fixedDigits_fixedWidth hhour]
  dsimp only
  rw [skipOctet_separator hcolon, fixedDigits_fixedWidth hminute]
  dsimp only
  rw [skipOctet_separator hcolon, strntoul_fixedWidth hsecond]
  dsimp only
  rw [if_neg hlength, hzone]

theorem convertNotations_iso8601 (separated : Bool) (m : Moment) (zone : Zone) (date : DateTime) :
    convertNotations date (iso8601Text separated m zone) = some (m.date, 0, []) := by
  have hdash : ch '-' ∈ ascii "-:" := by decide
  have hyear : m.year < 10 ^ 4 := Nat.lt_of_le_of_lt m.year_le (by decide)
  have hmonth : m.month < 10 ^ 2 := Nat.lt_of_le_of_lt m.month_le (by decide)
  have hday : m.day < 10 ^ 2 := Nat.lt_of_le_of_lt m.day_le_31 (by decide)
  have hiso : convertISO8601 date (iso8601Text separated m zone) = (m.date, some []) := by
    rw [convertISO8601, iso8601Text, fixedDigits_fixedWidth hyear]
    dsimp only
    rw [skipOctet_separator hdash, fixedDigits_fixedWidth hmonth]
    dsimp only
    rw [skipOctet_separator hdash, fixedDigits_fixedWidth hday]
    dsimp only
    rw [if_neg (not_not.mpr (peek_cons _ _)), List.tail_cons, convertISO8601Time_text]
    rfl
  rw [convertNotations, hiso]
  rfl

/-! ### Dates -/

theorem convertDate_rfc2822 (weekday : Option (Fin 7)) (padded : Bool) (m : Moment) (zone : Zone) :
    convertDate (rfc2822Text weekday padded m zone) =
      if m.month = 2 ∧ m.day = 29 then none else (m.gmt zone.seconds).map (·, []) := by
  obtain ⟨s, hs, hsame⟩ : ∃ s, skipWeekDay (skipCommentWhitespace
      (rfc2822Text weekday padded m zone)) = s ∧
      (s = rfc2822Date padded m zone ∨ s = ch ' ' :: rfc2822Date padded m zone) := by
    cases weekday with
    | none =>
        obtain ⟨hdigits, -, -⟩ := dayText_digits padded m
        obtain ⟨c, digits, hcons⟩ := List.exists_cons_of_ne_nil hdigits.1
        have hc : isDigit 10 c = true := hdigits.2 c (by rw [hcons]; exact List.mem_cons_self)
        refine ⟨_, ?_, .inl rfl⟩
        rw [rfc2822Text, rfc2822Date, hcons, List.cons_append, skip_digit hc, skipWeekDay,
          (digit_no_name hc _).2]
    | some weekday =>
        obtain ⟨hskip, hday⟩ := convertWeekDay_name weekday
          (ch ',' :: ch ' ' :: rfc2822Date padded m zone)
        refine ⟨_, ?_, .inr rfl⟩
        rw [rfc2822Text, hskip, skipWeekDay, hday]
        exact if_pos ⟨List.cons_ne_nil _ _, List.mem_singleton_self _⟩
  have hnotation := convertNotations_rfc2822 padded m zone hsame ⟨0, 0, 0, 0, 0, 0⟩
  by_cases hleap : m.month = 2 ∧ m.day = 29
  · rw [if_pos hleap] at hnotation ⊢
    exact convertDate_of_none hs hnotation
  · rw [if_neg hleap] at hnotation ⊢
    exact convertDate_of_notation hs hnotation

theorem convertDate_ctime (weekday : Fin 7) (m : Moment) (zone : Zone) :
    convertDate (ctimeText weekday m zone) =
      if m.month = 2 ∧ m.day = 29 then none else (m.gmt zone.seconds).map (·, []) := by
  have hs : skipWeekDay (skipCommentWhitespace (ctimeText weekday m zone)) =
      ch ' ' :: ctimeDate m zone := by
    obtain ⟨hskip, hday⟩ := convertWeekDay_name weekday (ch ' ' :: ctimeDate m zone)
    rw [ctimeText, hskip, skipWeekDay, hday]
    exact if_neg fun h => absurd (List.mem_singleton.mp h.2) (by rw [peek_cons]; decide)
  have hnotation := convertNotations_ctime m zone ⟨0, 0, 0, 0, 0, 0⟩
  by_cases hleap : m.month = 2 ∧ m.day = 29
  · rw [if_pos hleap] at hnotation ⊢
    exact convertDate_of_none hs hnotation
  · rw [if_neg hleap] at hnotation ⊢
    exact convertDate_of_notation hs hnotation

theorem convertDate_iso8601 (separated : Bool) (m : Moment) (zone : Zone) :
    convertDate (iso8601Text separated m zone) = (m.gmt 0).map (·, []) := by
  obtain ⟨c, digits, hcons⟩ :=
    List.exists_cons_of_ne_nil (isDigits_fixedWidth (by decide : 0 < 4) m.year).1
  have hc : isDigit 10 c = true :=
    isDigit_fixedWidth 4 m.year c (by rw [hcons]; exact List.mem_cons_self)
  have hs : skipWeekDay (skipCommentWhitespace (iso8601Text separated m zone)) =
      iso8601Text separated m zone := by
    rw [iso8601Text, hcons, List.cons_append, skip_digit hc, skipWeekDay, (digit_no_name hc _).2]
  exact convertDate_of_notation hs (convertNotations_iso8601 separated m zone ⟨0, 0, 0, 0, 0, 0⟩)

/-- The three notations are accepted and agree on all days but the 29th of February, and for zones
that have no offset. -/
theorem convertDate_notations_iff (weekday : Option (Fin 7)) (weekday' : Fin 7)
    (padded separated : Bool) (m : Moment) (zone : Zone) :
    (Converted (rfc2822Text weekday padded m zone) m zone ∧
        Converted (ctimeText weekday' m zone) m zone ∧
        Converted (iso8601Text separated m zone) m zone) ↔
      ¬ (m.month = 2 ∧ m.day = 29) ∧ zone.seconds = 0 := by
  obtain ⟨gmt, hgmt⟩ := m.gmt_eq
  have hconverted : ∀ text, Converted text m zone ↔
      convertDate text = some (gmt - zone.seconds, []) := by
    intro text
    rw [Converted, hgmt]
    simp
  rw [hconverted, hconverted, hconverted, convertDate_rfc2822, convertDate_ctime,
    convertDate_iso8601, hgmt, hgmt]
  by_cases hleap : m.month = 2 ∧ m.day = 29
  · rw [if_pos hleap]
    exact iff_of_false (fun h => nomatch h.1) (fun h => h.1 hleap)
  · rw [if_neg hleap]
    have hzone : (some (gmt - 0)).map (·, ([] : List Octet)) = some (gmt - zone.seconds, []) ↔
        zone.seconds = 0 := by
      rw [Option.map_some, Option.some_inj, Prod.mk.injEq, and_iff_left rfl]
      omega
    rw [hzone]
    exact ⟨fun h => ⟨hleap, h.2.2⟩, fun h => ⟨rfl, rfl, h.2⟩⟩

/-- The 22nd of September 2003 two hours east of Greenwich, in the notation of ISO 8601, is taken for
a time of Greenwich. -/
theorem convertDate_iso8601_east : ∃ m zone,
    iso8601Text true m zone = ascii "2003-09-22T20:02:33+0200" ∧
      m.gmt zone.seconds = some 1064253753 ∧
      convertDate (ascii "2003-09-22T20:02:33+0200") = some (1064260953, []) ∧
      ¬ Converted (iso8601Text true m zone) m zone := by
  have hread : convertDate (ascii "2003-09-22T20:02:33+0200") = some (1064260953, []) := by
    decide
  refine ⟨⟨2003, 9, 22, 20, 2, 33, by decide, by decide, by decide, by decide, by decide, by decide,
    by decide, by decide, by decide⟩, ⟨false, 2, 0, by decide, by decide⟩, by decide,
    by decide, hread, ?_⟩
  rintro ⟨gmt, hgmt, hconverted⟩
  have htext : convertDate _ = some (1064260953, []) := hread
  have hvalue : convertToGmt 2003 8 22 20 2 33 7200 = some 1064253753 := by decide
  have hsame : some gmt = some 1064253753 := hgmt.symm.trans hvalue
  have hother := htext.symm.trans hconverted
  cases hsame
  exact absurd hother (by decide)

end Snert
