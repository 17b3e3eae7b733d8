/-
Module: Snert.Util.ConvertDate
Purpose: `convertDate` of util/convertDate.c and the functions it is made of. The variables that the
  parsers share are a record that each of them passes on, also where it fails. Null guards are left
  out; a character that a short string does not have is taken for a NUL, with which no name matches.
Trusted boundary: human-reviewed spec
Main exports: DateTime, convertTimeZone, convertMonth, convertWeekDay
-/
import Snert.Net.SpanHost

namespace Snert

open CModel

/-! ### Tables -/

/-- `dayOfYear`. -/
def dayOfYear : List Int :=
  [0, 31, 59, 90, 120, 151, 181, 212, 243, 273, 304, 334]

/-- `dayOfLeapYear`. -/
def dayOfLeapYear : List Int :=
  [0, 31, 60, 91, 121, 152, 182, 213, 244, 274, 305, 335]

/-- `daysPerMonth`. -/
def daysPerMonth : List Int :=
  [31, 28, 31, 30, 31, 30, 31, 31, 30, 31, 30, 31]

/-- `months`: three octets are packed into one number and compared at once. -/
def months : List (List Octet) :=
  ["Jan", "Feb", "Mar", "Apr", "May", "Jun", "Jul", "Aug", "Sep", "Oct", "Nov", "Dec",
   "jan", "feb", "mar", "apr", "may", "jun", "jul", "aug", "sep", "oct", "nov", "dec",
   "JAN", "FEB", "MAR", "APR", "MAY", "JUN", "JUL", "AUG", "SEP", "OCT", "NOV", "DEC"].map ascii

/-- `days`. -/
def days : List (List Octet) :=
  ["Mon", "Tue", "Wed", "Thu", "Fri", "Sat", "Sun",
   "mon", "tue", "wed", "thu", "fri", "sat", "sun",
   "MON", "TUE", "WED", "THU", "FRI", "SAT", "SUN"].map ascii

/-- `tzList`: the names of zones and their offsets. -/
def tzList : List (String × Int) :=
  [("NZDT", 1300), ("IDLE", 1200), ("NZST", 1200), ("NZT", 1200), ("AESST", 1100),
   ("ACSST", 1030), ("CADT", 1030), ("SADT", 1030), ("AEST", 1000), ("EAST", 1000), ("GST", 1000),
   ("LIGT", 1000), ("SAST", 930), ("CAST", 930), ("AWSST", 900), ("JST", 900), ("KST", 900),
   ("MHT", 900), ("WDT", 900), ("MT", 830), ("AWST", 800), ("CCT", 800), ("WADT", 800),
   ("WST", 800), ("JT", 730), ("ALMST", 700), ("WAST", 700), ("CXT", 700), ("MMT", 630),
   ("ALMT", 600), ("MAWT", 600), ("IOT", 500), ("MVT", 500), ("TFT", 500), ("AFT", 430),
   ("EAST", 400), ("MUT", 400), ("RET", 400), ("SCT", 400), ("IRT", 330), ("IT", 330),
   ("EAT", 300), ("BT", 300), ("EETDST", 300), ("HMT", 300), ("BDST", 200), ("CEST", 200),
   ("CETDST", 200), ("EET", 200), ("FWT", 200), ("IST", 200), ("MEST", 200), ("METDST", 200),
   ("SST", 200), ("BST", 100), ("CET", 100), ("DNT", 100), ("FST", 100), ("MET", 100),
   ("MEWT", 100), ("MEZ", 100), ("NOR", 100), ("SET", 100), ("SWT", 100), ("WETDST", 100),
   ("GMT", 0), ("UTC", 0), ("UT", 0), ("ZULU", 0), ("WET", 0), ("WAT", -100), ("FNST", -100),
   ("FNT", -200), ("BRST", -200), ("NDT", -230), ("ADT", -300), ("AWT", -300), ("BRT", -300),
   ("NFT", -330), ("NST", -330), ("AST", -400), ("ACST", -400), ("EDT", -400), ("ACT", -500),
   ("CDT", -500), ("EST", -500), ("CST", -600), ("MDT", -600), ("MST", -700), ("PDT", -700),
   ("AKDT", -800), ("PST", -800), ("YDT", -800), ("AKST", -900), ("HDT", -900), ("YST", -900),
   ("MART", -930), ("AHST", -1000), ("HST", -1000), ("CAT", -1000), ("NT", -1100),
   ("IDLW", -1200), ("A", 100), ("B", 200), ("C", 300), ("D", 400), ("E", 500), ("F", 600),
   ("G", 700), ("H", 800), ("I", 900), ("K", 1000), ("L", 1100), ("M", 1200), ("N", -100),
   ("O", -200), ("P", -300), ("Q", -400), ("R", -500), ("S", -600), ("T", -700), ("U", -800),
   ("V", -900), ("W", -1000), ("X", -1100), ("Y", -1200), ("Z", 0)]

/-! ### Elements -/

/-- `isLeapYear (year)`. -/
def isLeapYear (year : Int) : Bool :=
  if year.tmod 400 = 0 then true
  else if year.tmod 100 = 0 then false
  else year.tmod 4 = 0

/-- `skipCommentWhitespace (s)`, inside of a comment or not. -/
def skipComments : Bool → List Octet → List Octet
  | _, [] => []
  | true, c :: s => skipComments (c ≠ ch ')') s
  | false, c :: s =>
      if c = ch '(' then skipComments true s
      else if isspace c then skipComments false s
      else c :: s

/-- `skipCommentWhitespace (s)`. -/
def skipCommentWhitespace (s : List Octet) : List Octet :=
  skipComments false s

/-- The zone whose name starts a string, and what follows it. `none` is the error of a name that goes
    on. Without a name the zone is zero and nothing is read. -/
def namedZone (s : List Octet) : Option (Int × List Octet) :=
  match tzList.find? fun tz => strncasecmp s (ascii tz.1) tz.1.length = 0 with
  | none => some (0, s)
  | some tz =>
      let next := s.drop tz.1.length
      if isalpha (peek next) then none else some (tz.2, next)

/-- `convertTimeZone (zone_string, &zone_value, &stop)`. -/
def convertTimeZone (zone_string : List Octet) : Option (Int × List Octet) := do
  let s := skipCommentWhitespace zone_string
  let (zone, next) ← if (strtol s 10).2 = s then namedZone s else some (strtol s 10)
  if zone < -9959 ∨ 9959 < zone then none
  else return (zone.tdiv 100 * 3600 + zone.tmod 100 * 60, skipCommentWhitespace next)

/-- `convertMonth (month_string, &month_value, &stop)`: the value, and the rest if it is a month. -/
def convertMonth (month_string : List Octet) : Int × Option (List Octet) :=
  let s := skipCommentWhitespace month_string
  let month := months.idxOf (s.take 3)
  if month < 36 then ((month % 12 : Nat), some (s.drop 3)) else (month, none)

/-- `convertWeekDay (day_string, &day_index, &stop)`. -/
def convertWeekDay (day_string : List Octet) : Int × Option (List Octet) :=
  let s := skipCommentWhitespace day_string
  let day := days.idxOf (s.take 3)
  if day < 21 then ((day % 7 : Nat), some (s.drop 3)) else (day, none)

/-- `convertDayOfYear (year, month, day, &yday)`. -/
def convertDayOfYear (year month day : Int) : Option Int :=
  if year < 0 ∨ month < 0 ∨ 12 ≤ month ∨ day < 1 then none
  else if (if month = 1 ∧ isLeapYear year then 1 else 0) + daysPerMonth.getD month.toNat 0 < day then
    none
  else if isLeapYear year then some (dayOfLeapYear.getD month.toNat 0 + day - 1)
  else some (dayOfYear.getD month.toNat 0 + day - 1)

/-- `convertToGmt (year, month, day, hour, minute, second, zone, &gmt_seconds)`. -/
def convertToGmt (year month day hour minute second zone : Int) : Option Int := do
  if year < 1970 then none
  else
    let yday ← convertDayOfYear year month day
    return second + minute * 60 + hour * 3600 + yday * 86400 + (year - 1970) * 31536000 +
      (year - 1969).tdiv 4 * 86400 - zone

/-- `convertToGmt (year, month, day, hour, minute, second, zone, &gmt_seconds)` for any arguments: a
    `long` and a `time_t` have 64 bits and wrap. -/
def convertToGmtLong (year month day hour minute second zone : Int64) : Option Int64 := do
  if year < 1970 then none
  else
    let yday ← convertDayOfYear year.toInt month.toInt day.toInt
    return second + minute * 60 + hour * 3600 + Int64.ofInt yday * 86400 + (year - 1970) * 31536000 +
      (year - 1969) / 4 * 86400 - zone

/-! ### Notations -/

/-- The variables that the parsers of `convertDate` set. -/
structure DateTime where
  year : Int
  month : Int
  day : Int
  hour : Int
  minute : Int
  second : Int
deriving DecidableEq, Repr

/-- `convertYMD (date_string, &year, &month, &day, &stop)`. -/
def convertYMD (date : DateTime) (date_string : List Octet) : DateTime × Option (List Octet) :=
  let s := skipCommentWhitespace date_string
  let (day, next) := strtol s 10
  let date := { date with day := day }
  if next = s then (date, none)
  else
    let (month, next) := convertMonth (skipCommentWhitespace next)
    let date := { date with month := month }
    match next with
    | none => (date, none)
    | some next =>
        if day < 1 ∨ daysPerMonth.getD month.toNat 0 < day then (date, none)
        else
          let s := skipCommentWhitespace next
          let (year, next) := strtol s 10
          ({ date with year := year }, if next = s then none else some next)

/-- The test of `convertHMS`: seconds go to 60 for leap seconds. -/
def validTime (date : DateTime) : Prop :=
  0 ≤ date.hour ∧ date.hour ≤ 23 ∧ 0 ≤ date.minute ∧ date.minute ≤ 59 ∧ 0 ≤ date.second ∧
    date.second ≤ 60

instance (date : DateTime) : Decidable (validTime date) :=
  inferInstanceAs (Decidable (_ ∧ _))

/-- `convertHMS (time_string, &hours, &minutes, &seconds, &stop)`. The seconds stay what they are
    where there are none. -/
def convertHMS (date : DateTime) (time_string : List Octet) : DateTime × Option (List Octet) :=
  let s := skipCommentWhitespace time_string
  let (hours, next) := strtol s 10
  let date := { date with hour := hours }
  if next = s ∨ peek next ≠ ch ':' then (date, none)
  else
    let s := skipCommentWhitespace next.tail
    let (minutes, next) := strtol s 10
    let date := { date with minute := minutes }
    if next = s then (date, none)
    else if peek next = ch ':' then
      let s := skipCommentWhitespace next.tail
      let (seconds, next) := strtol s 10
      let date := { date with second := seconds }
      (date, if next = s ∨ ¬ validTime date then none else some next)
    else (date, if ¬ isspace (peek next) ∨ ¬ validTime date then none else some next)

/-- `convertSyslog (tstamp, &month, &day, &hour, &minute, &second, &stop)`. -/
def convertSyslog (date : DateTime) (tstamp : List Octet) : DateTime × Option (List Octet) :=
  let (month, next) := convertMonth (skipCommentWhitespace tstamp)
  let date := { date with month := month }
  match next with
  | none => (date, none)
  | some next =>
      let s := skipCommentWhitespace next
      let (day, next) := strtol s 10
      let date := { date with day := day }
      if next = s ∨ day < 1 ∨ daysPerMonth.getD month.toNat 0 < day then (date, none)
      else convertHMS date next

/-- `convertCtime (tstamp, &year, &month, &day, &hour, &minute, &second, &stop)`. -/
def convertCtime (date : DateTime) (tstamp : List Octet) : DateTime × Option (List Octet) :=
  match convertSyslog date tstamp with
  | (date, none) => (date, none)
  | (date, some next) =>
      let s := skipCommentWhitespace next
      let (year, next) := strtol s 10
      ({ date with year := year }, if next = s then none else some next)

/-- `strntoul (s, &stop, width)`, of at most as many digits as a `long` holds. -/
def strntoul (s : List Octet) (width : Nat) : Nat × List Octet :=
  let digits := (s.take width).takeWhile (isDigit 10)
  (digitsValue 10 digits, s.drop digits.length)

/-- `strntoul`, where there must be all digits. -/
def fixedDigits (s : List Octet) (width : Nat) : Nat × Option (List Octet) :=
  let (value, next) := strntoul s width
  (value, if s.length - next.length = width then some next else none)

/-- Step over an octet if it stands there. -/
def skipOctet (set s : List Octet) : List Octet :=
  if s ≠ [] ∧ peek s ∈ set then s.tail else s

/-- `convertISO8601Tz (s, &zone, &stop)`. What is passed back stands before the minutes. -/
def convertISO8601Tz (s : List Octet) : Option (Int × List Octet) :=
  if peek s = ch 'Z' then some (0, s.tail)
  else if peek s ≠ ch '+' ∧ peek s ≠ ch '-' then none
  else
    let sign : Int := if peek s = ch '+' then 1 else -1
    match fixedDigits s.tail 2 with
    | (_, none) => none
    | (hh, some next) =>
        let s := skipOctet [ch ':'] next
        let (mm, next) := strntoul s 2
        if next.length < s.length ∧ s.length - next.length ≠ 2 then none
        else some (sign * (hh * 3600 + mm * 60), s)

/-- The time behind the `T` of `convertISO8601`. -/
def convertISO8601Time (date : DateTime) (s : List Octet) : DateTime × Option (List Octet) :=
  let (hour, next) := fixedDigits s 2
  let date := { date with hour := hour }
  match next with
  | none => (date, none)
  | some next =>
      let (minute, next) := fixedDigits (skipOctet [ch ':'] next) 2
      let date := { date with minute := minute }
      match next with
      | none => (date, none)
      | some next =>
          let s := skipOctet [ch ':'] next
          let (second, next) := strntoul s 2
          let date := { date with second := second }
          if next.length < s.length ∧ s.length - next.length ≠ 2 then (date, none)
          -- `strtoul` reads the digits of a fraction, and a sign in front of them.
          else (date, some (strtol (skipOctet [ch ',', ch '.'] next) 10).2)

/-- `convertISO8601 (s, &year, &month, &day, &hour, &minute, &second, &stop)`. -/
def convertISO8601 (date : DateTime) (s : List Octet) : DateTime × Option (List Octet) :=
  let (year, next) := fixedDigits s 4
  let date := { date with year := year }
  match next with
  | none => (date, none)
  | some next =>
      let (month, next) := fixedDigits (skipOctet [ch '-'] next) 2
      let date := { date with month := (month : Int) - 1 }
      match next with
      | none => (date, none)
      | some next =>
          let (day, next) := fixedDigits (skipOctet [ch '-'] next) 2
          let date := { date with day := day }
          match next with
          | none => (date, none)
          | some next =>
              if peek next ≠ ch 'T' then
                ({ date with hour := 0, minute := 0, second := 0 }, some next)
              else convertISO8601Time date next.tail

/-- A zone that may be missing. -/
def optionalZone (convert : List Octet → Option (Int × List Octet)) (s : List Octet) :
    Option (Int × List Octet) :=
  if s = [] then some (0, s) else convert s

/-- The three notations that `convertDate` tries one after the other: the variables, the zone, and
    what has not been read. -/
def convertNotations (date : DateTime) (s : List Octet) : Option (DateTime × Int × List Octet) :=
  match convertISO8601 date s with
  | (date, some next) => (optionalZone convertISO8601Tz next).map (date, ·)
  | (date, none) =>
      match convertCtime date s with
      | (date, some next) => (optionalZone convertTimeZone next).map (date, ·)
      | (date, none) =>
          match convertYMD date s with
          | (_, none) => none
          | (date, some next) =>
              if next = [] then some (date, 0, next)
              else
                match convertHMS date next with
                | (_, none) => none
                | (date, some next) => (optionalZone convertTimeZone next).map (date, ·)

/-- What `convertDate` makes of a year of two or three digits. -/
def fullYear (year : Int) : Int :=
  if year ≤ 69 then year + 2000 else if year ≤ 999 then year + 1900 else year

/-- The name of a day, and a comma behind it, are skipped. -/
def skipWeekDay (s : List Octet) : List Octet :=
  match (convertWeekDay s).2 with
  | none => s
  | some stop => skipOctet [ch ','] stop

/-- `convertDate (date_string, &gmt_seconds_since_epoch, &stop)`. The date is not set before, and
    nothing is read of it that has not been set. -/
def convertDate (date_string : List Octet) : Option (Int × List Octet) := do
  let s := skipWeekDay (skipCommentWhitespace date_string)
  let (date, zone, stop) ← convertNotations ⟨0, 0, 0, 0, 0, 0⟩ s
  if date.year < 0 then none
  else
    let gmt ← convertToGmt (fullYear date.year) date.month date.day date.hour date.minute date.second
      zone
    return (gmt, stop)

end Snert
