import Registrar.Text.Blank
import Registrar.Text.Digits

/-!
# Dates and times

Times are milliseconds since the beginning of 1970, universal time. In a search a time is a full
timestamp with its offset, or a date alone, which means its midnight; a leap second counts as
running on past the fifty-ninth second. A value is spelled with a full timestamp only, under rules
of its own.

* `Calendar.dayNumber`, `Calendar.civil`: days since 1970 and dates of the Gregorian calendar.
* `Calendar.parse?`: reads a time in a search.
* `Calendar.parseSpelled?`: reads the time that a value is spelled with.
* `Calendar.text`, `Calendar.spelled`: the notation in messages and in the spelling of values.
-/

namespace Registrar.Calendar

/-! ### Days -/

/-- A date of the Gregorian calendar, extended to all years. -/
structure Date where
  year : Int
  month : Nat
  day : Nat

def isLeapYear (year : Int) : Bool := (year % 4 == 0 && year % 100 != 0) || year % 400 == 0

def daysInMonth (year : Int) (month : Nat) : Nat :=
  match month with
  | 2 => if isLeapYear year then 29 else 28
  | 4 | 6 | 9 | 11 => 30
  | _ => 31

/-- The years that have dates. -/
def yearInRange (year : Int) : Bool := -262143 ≤ year && year ≤ 262142

def Date.isValid (d : Date) : Bool :=
  yearInRange d.year && 1 ≤ d.month && d.month ≤ 12 && 1 ≤ d.day &&
    d.day ≤ daysInMonth d.year d.month

/-- **Days since 1970-01-01.** Years are counted from March, so that the leap day comes last. -/
def dayNumber (d : Date) : Int :=
  let y := if d.month ≤ 2 then d.year - 1 else d.year
  let m := if d.month ≤ 2 then d.month + 9 else d.month - 3
  let dayOfYear := (153 * m + 2) / 5 + d.day - 1
  365 * y + y / 4 - y / 100 + y / 400 + dayOfYear - 719468

/-- **The date of a day number.** -/
def civil (n : Int) : Date :=
  let z := n + 719468
  let era := z / 146097
  let dayOfEra := (z % 146097).toNat
  let yearOfEra := (dayOfEra - dayOfEra / 1460 + dayOfEra / 36524 - dayOfEra / 146096) / 365
  let dayOfYear := dayOfEra - (365 * yearOfEra + yearOfEra / 4 - yearOfEra / 100)
  let m := (5 * dayOfYear + 2) / 153
  let day := dayOfYear - (153 * m + 2) / 5 + 1
  let month := if m < 10 then m + 3 else m - 9
  ⟨yearOfEra + 400 * era + (if month ≤ 2 then 1 else 0), month, day⟩

/-! ### Reading -/

/-- Between `least` and `most` decimal digits at the front, and the rest. -/
def takeDigits? (least most : Nat) (cs : List Char) : Option (Nat × List Char) :=
  let ds := (cs.takeWhile Text.isDigit).take most
  if ds.length < least then none
  else some (Text.natOfDigits ds, cs.drop ds.length)

/-- The rest after an expected character. -/
def expect? (c : Char) : List Char → Option (List Char)
  | d :: cs => if c = d then some cs else none
  | [] => none

/-- A fraction of a second, in nanoseconds; further digits are passed over. -/
def takeFraction? : List Char → Option (Nat × List Char)
  | '.' :: cs => do
    let ds := cs.takeWhile Text.isDigit
    if ds.isEmpty then none
    else
      let shown := ds.take 9
      some (Text.natOfDigits shown * Text.tenTo (9 - shown.length), cs.drop ds.length)
  | cs => some (0, cs)

/-- **What a notation of timestamps allows** between date and time, and as the sign of an offset. -/
structure StampRules where
  separates : Char → Bool
  isMinus : Char → Bool

/-- An offset from universal time in seconds; it is shorter than a day. -/
def takeOffset? (rules : StampRules) (cs : List Char) : Option (Int × List Char) :=
  match cs with
  | 'Z' :: r => some (0, r)
  | 'z' :: r => some (0, r)
  | sign :: r =>
    if sign = '+' ∨ rules.isMinus sign then do
      let (hours, r) ← takeDigits? 2 2 r
      let r ← expect? ':' r
      let (minutes, r) ← takeDigits? 2 2 r
      if 23 < hours ∨ 59 < minutes then none
      else
        let seconds : Int := hours * 3600 + minutes * 60
        some (if sign = '+' then seconds else -seconds, r)
    else none
  | [] => none

/-- **A timestamp**: its minute in seconds since 1970, universal time, and the seconds and
nanoseconds of the minute. -/
structure Stamp where
  minuteStart : Int
  second : Nat
  nanos : Nat

/-- The nanoseconds since 1970. -/
def Stamp.total (s : Stamp) : Int := (s.minuteStart + s.second) * 1000000000 + s.nanos

/-- Reads a timestamp with date, time and offset; its second may be a leap second. -/
def parseStamp? (rules : StampRules) (cs : List Char) : Option Stamp := do
  let (year, cs) ← takeDigits? 4 4 cs
  let cs ← expect? '-' cs
  let (month, cs) ← takeDigits? 2 2 cs
  let cs ← expect? '-' cs
  let (day, cs) ← takeDigits? 2 2 cs
  let separator ← cs.head?
  let cs := cs.drop 1
  let (hour, cs) ← takeDigits? 2 2 cs
  let cs ← expect? ':' cs
  let (minute, cs) ← takeDigits? 2 2 cs
  let cs ← expect? ':' cs
  let (second, cs) ← takeDigits? 2 2 cs
  let (nanos, cs) ← takeFraction? cs
  let (offset, cs) ← takeOffset? rules cs
  let date : Date := ⟨year, month, day⟩
  if rules.separates separator ∧ cs.isEmpty ∧ date.isValid ∧ hour ≤ 23 ∧ minute ≤ 59 ∧
      second ≤ 60 then
    some ⟨dayNumber date * 86400 + hour * 3600 + minute * 60 - offset, second, nanos⟩
  else none

/-- Timestamps in searches. -/
def searchRules : StampRules where
  separates c := c ∈ ['T', 't', ' ']
  isMinus c := c = '-' || c.toNat = 0x2212

/-- **A timestamp in a search**, in whole milliseconds that have passed. -/
def parseTimestamp? (cs : List Char) : Option Int :=
  (parseStamp? searchRules cs).map fun s => s.total / 1000000

/-- Timestamps that spell values: any single sign may stand between date and time. -/
def spelledRules : StampRules where
  separates c := c.toNat < 0x80
  isMinus c := c = '-'

/-- Whether the second after this one begins a month. -/
def endsMonth (seconds : Int) : Bool :=
  (seconds + 1) % 86400 == 0 && (civil ((seconds + 1) / 86400)).day == 1

/-- **The time that a value is spelled with**, in milliseconds cut towards 1970. A leap second has
to end a month, and means the last nanosecond before it. -/
def parseSpelled? (text : String) : Option Int := do
  let s ← parseStamp? spelledRules text.toList
  if s.second ≤ 59 then some (s.total.tdiv 1000000)
  else if endsMonth (s.minuteStart + 59) then
    some (({ s with second := 59, nanos := 999999999 } : Stamp).total.tdiv 1000000)
  else none

/-- A year, with a sign when it has more than four digits or lies before year zero. -/
def takeYear? (cs : List Char) : Option (Int × List Char) :=
  match cs with
  | '-' :: r => (takeDigits? 1 r.length r).map fun (n, r) => (-(n : Int), r)
  | '+' :: r => (takeDigits? 1 r.length r).map fun (n, r) => ((n : Int), r)
  | _ => (takeDigits? 1 4 cs).map fun (n, r) => ((n : Int), r)

/-- **A date alone**, its numbers possibly with blanks before them. -/
def parseDate? (cs : List Char) : Option Int := do
  let (year, cs) ← takeYear? (Text.trimLeft cs)
  let cs ← expect? '-' cs
  let (month, cs) ← takeDigits? 1 2 (Text.trimLeft cs)
  let cs ← expect? '-' cs
  let (day, cs) ← takeDigits? 1 2 (Text.trimLeft cs)
  let date : Date := ⟨year, month, day⟩
  if cs.isEmpty ∧ date.isValid then some (dayNumber date * 86400000) else none

/-- **Reads a time** in either notation, in milliseconds. -/
def parse? (s : String) : Option Int := parseTimestamp? s.toList <|> parseDate? s.toList

/-! ### Writing -/

/-- A number with leading zeros up to a width. -/
def padded (width n : Nat) : String :=
  let ds := Nat.toDigits 10 n
  String.ofList (List.replicate (width - ds.length) '0' ++ ds)

def yearText (year : Int) : String :=
  if 0 ≤ year ∧ year ≤ 9999 then padded 4 year.toNat
  else (if year < 0 then "-" else "+") ++ padded 4 year.natAbs

/-- Date and time up to the second. -/
def textToSecond (seconds : Int) : String :=
  let date := civil (seconds / 86400)
  let clock := (seconds % 86400).toNat
  yearText date.year ++ "-" ++ padded 2 date.month ++ "-" ++ padded 2 date.day ++ "T" ++
    padded 2 (clock / 3600) ++ ":" ++ padded 2 (clock / 60 % 60) ++ ":" ++ padded 2 (clock % 60)

/-- **A time in universal time**, with milliseconds when there are any. -/
def text (millis : Int) : String :=
  let rest := (millis % 1000).toNat
  textToSecond (millis / 1000) ++ (if rest = 0 then "" else "." ++ padded 3 rest) ++ "Z"

/-- **The timestamp that spells a time**: its fraction has as few digits as it needs. -/
def spelled (millis : Int) : String :=
  let rest := (millis % 1000).toNat
  let digits := ((padded 3 rest).toList.reverse.dropWhile (· = '0')).reverse
  textToSecond (millis / 1000) ++ (if rest = 0 then "" else "." ++ String.ofList digits) ++ "Z"

/-- The first millisecond of the year 10000, whose number needs a fifth digit. -/
def fiveDigitYears : Int := 253402300800000

end Registrar.Calendar
