import WarmPool.Text.Blank
import WarmPool.Number.Decimal

/-!
# Timestamps

An instant in seconds since the start of 1970 and nanoseconds, the nanoseconds of a leap second
running on past the last second of its minute. Texts follow RFC 3339: any offset is read, blanks
between the parts and short numbers included, and UTC is written.
-/

namespace WarmPool

/-- An instant: seconds since the start of 1970 in UTC, and nanoseconds. -/
structure Timestamp where
  seconds : Int
  /-- At least `10 ^ 9` exactly within a leap second. -/
  nanos : Nat
deriving DecidableEq, Repr, Inhabited

namespace Timestamp

instance : LT Timestamp :=
  ⟨fun a b => a.seconds < b.seconds ∨ (a.seconds = b.seconds ∧ a.nanos < b.nanos)⟩

instance (a b : Timestamp) : Decidable (a < b) := inferInstanceAs (Decidable (_ ∨ _))

/-! ### The calendar -/

/-- Whether a year has a leap day. -/
def isLeapYear (year : Int) : Bool :=
  year % 4 = 0 && (year % 100 ≠ 0 || year % 400 = 0)

/-- The days of a month. -/
def daysInMonth (year : Int) (month : Nat) : Nat :=
  match month with
  | 2 => if isLeapYear year then 29 else 28
  | 4 | 6 | 9 | 11 => 30
  | _ => 31

/-- The days from the start of 1970 to a date, counting years from March in cycles of 400. -/
def daysOfDate (year : Int) (month day : Nat) : Int :=
  let y := if month ≤ 2 then year - 1 else year
  let cycle := y / 400
  let yearOfCycle := y - cycle * 400
  let monthFromMarch : Int := if month ≤ 2 then month + 9 else month - 3
  let dayOfYear := (153 * monthFromMarch + 2) / 5 + day - 1
  let dayOfCycle := yearOfCycle * 365 + yearOfCycle / 4 - yearOfCycle / 100 + dayOfYear
  cycle * 146097 + dayOfCycle - 719468

/-- The year, month and day that lie this many days after the start of 1970. -/
def dateOfDays (days : Int) : Int × Nat × Nat :=
  let z := days + 719468
  let cycle := z / 146097
  let dayOfCycle := z - cycle * 146097
  let yearOfCycle :=
    (dayOfCycle - dayOfCycle / 1460 + dayOfCycle / 36524 - dayOfCycle / 146096) / 365
  let dayOfYear := dayOfCycle - (365 * yearOfCycle + yearOfCycle / 4 - yearOfCycle / 100)
  let monthFromMarch := (5 * dayOfYear + 2) / 153
  let day := dayOfYear - (153 * monthFromMarch + 2) / 5 + 1
  let month := if monthFromMarch < 10 then monthFromMarch + 3 else monthFromMarch - 9
  let year := yearOfCycle + cycle * 400 + (if month ≤ 2 then 1 else 0)
  (year, month.toNat, day.toNat)

/-- The first and the last year of the calendar. -/
def inCalendar (year : Int) : Bool := -262143 ≤ year && year ≤ 262142

/-! ### Writing -/

/-- A number with zeros in front up to this many digits. -/
def padded (width n : Nat) : List Char :=
  let digits := Decimal.numeral n
  List.replicate (width - digits.length) '0' ++ digits

/-- A year: four digits from 0 to 9999, else with a sign. -/
def yearChars (year : Int) : List Char :=
  if 0 ≤ year ∧ year ≤ 9999 then padded 4 year.toNat
  else (if year < 0 then '-' else '+') :: padded 4 year.natAbs

/-- The fraction of a second in 0, 3, 6 or 9 digits, the fewest that are exact. -/
def fractionChars (nanos : Nat) : List Char :=
  if nanos = 0 then []
  else if nanos % 1000000 = 0 then '.' :: padded 3 (nanos / 1000000)
  else if nanos % 1000 = 0 then '.' :: padded 6 (nanos / 1000)
  else '.' :: padded 9 nanos

/-- Date and time in UTC with this fraction of a second. -/
def chars (t : Timestamp) (fraction : List Char) : List Char :=
  let days := t.seconds / 86400
  let second := (t.seconds - days * 86400).toNat
  let (year, month, day) := dateOfDays days
  let leap := if 1000000000 ≤ t.nanos then 1 else 0
  yearChars year ++ ['-'] ++ padded 2 month ++ ['-'] ++ padded 2 day ++ ['T'] ++
    padded 2 (second / 3600) ++ [':'] ++ padded 2 (second / 60 % 60) ++ [':'] ++
    padded 2 (second % 60 + leap) ++ fraction ++ ['Z']

/-- The text of the instant, its fraction as short as it can be. -/
def text (t : Timestamp) : String :=
  String.ofList (t.chars (fractionChars (t.nanos % 1000000000)))

/-- The text of the instant in whole seconds. -/
def wholeText (t : Timestamp) : String := String.ofList (t.chars [])

/-- The text of the instant in microseconds, the rest of the fraction dropped. -/
def microText (t : Timestamp) : String :=
  String.ofList (t.chars ('.' :: padded 6 (t.nanos % 1000000000 / 1000)))

/-- The nanoseconds since the start of 1970, none before it. -/
def totalNanos (t : Timestamp) : Nat := (t.seconds * 1000000000 + t.nanos).toNat

/-! ### Reading -/

/-- A number of `least` to `most` digits in front of the rest, blanks before it allowed. -/
def parseNumber? (most : Nat) (cs : List Char) : Option (Nat × List Char) :=
  let cs := Text.trimFront cs
  let digits := (cs.take most).takeWhile Char.isDigit
  if digits.isEmpty then none
  else
    some (digits.foldl (fun n c => 10 * n + (c.toNat - '0'.toNat)) 0, cs.drop digits.length)

/-- A year: up to four digits, or a sign and any number of them. -/
def parseYear? (cs : List Char) : Option (Int × List Char) :=
  match Text.trimFront cs with
  | '-' :: rest =>
    if (rest.head?.map Char.isDigit).getD false then
      (parseNumber? rest.length rest).map fun (n, rest) => (-(n : Int), rest)
    else none
  | '+' :: rest =>
    if (rest.head?.map Char.isDigit).getD false then
      (parseNumber? rest.length rest).map fun (n, rest) => ((n : Int), rest)
    else none
  | rest => (parseNumber? 4 rest).map fun (n, rest) => ((n : Int), rest)

/-- A separator, blanks before it allowed. -/
def parseSeparator? (c : Char) (cs : List Char) : Option (List Char) :=
  match Text.trimFront cs with
  | d :: rest => if d = c then some rest else none
  | [] => none

/-- A fraction of a second in nanoseconds behind a point; digits past the ninth are dropped. -/
def parseFraction? : List Char → Option (Nat × List Char)
  | '.' :: rest =>
    let digits := rest.takeWhile Char.isDigit
    if digits.isEmpty then none
    else
      let nine := digits.take 9
      let n := nine.foldl (fun n c => 10 * n + (c.toNat - '0'.toNat)) 0
      some (n * 10 ^ (9 - nine.length), rest.dropWhile Char.isDigit)
  | cs => some (0, cs)

/-- Two digits. -/
def parseTwoDigits? : List Char → Option (Nat × List Char)
  | a :: b :: rest =>
    if a.isDigit && b.isDigit then
      some (10 * (a.toNat - '0'.toNat) + (b.toNat - '0'.toNat), rest)
    else none
  | _ => none

/-- The offset from UTC in seconds: `Z`, `UTC`, or a sign, hours and minutes. -/
def parseOffset? (cs : List Char) : Option (Int × List Char) :=
  match cs with
  | 'Z' :: rest | 'z' :: rest => some (0, rest)
  | _ =>
    if (cs.take 3).map Char.toUpper = ['U', 'T', 'C'] then some (0, cs.drop 3)
    else
      match cs with
      | sign :: rest => do
        let negative ←
          if sign = '+' then some false
          else if sign = '-' || sign = '\u2212' then some true
          else none
        let (hours, rest) ← parseTwoDigits? rest
        let rest := rest.dropWhile fun c => c = ':' || Text.isBlank c
        let (minutes, rest) ← parseTwoDigits? rest
        let total : Int := hours * 3600 + minutes * 60
        if minutes < 60 && total < 86400 then some (if negative then -total else total, rest)
        else none
      | [] => none

/-- The instant that date, time and offset denote, if the calendar and the clock have it. -/
def ofParts? (year : Int) (month day hour minute second nanos : Nat) (offset : Int) :
    Option Timestamp :=
  if inCalendar year && 1 ≤ month && month ≤ 12 && 1 ≤ day && day ≤ daysInMonth year month &&
      hour < 24 && minute < 60 && second ≤ 60 then
    let leap := second = 60
    let clock : Int := hour * 3600 + minute * 60 + (if leap then 59 else second)
    let seconds := daysOfDate year month day * 86400 + clock - offset
    if inCalendar (dateOfDays (seconds / 86400)).1 then
      some ⟨seconds, if leap then nanos + 1000000000 else nanos⟩
    else none
  else none

/-- The instant that a text denotes. -/
def parseChars? (cs : List Char) : Option Timestamp := do
  let (year, cs) ← parseYear? cs
  let cs ← parseSeparator? '-' cs
  let (month, cs) ← parseNumber? 2 cs
  let cs ← parseSeparator? '-' cs
  let (day, cs) ← parseNumber? 2 cs
  let cs ← match cs with
    | 'T' :: rest | 't' :: rest | ' ' :: rest => some rest
    | _ => none
  let (hour, cs) ← parseNumber? 2 cs
  let cs ← parseSeparator? ':' cs
  let (minute, cs) ← parseNumber? 2 cs
  let cs ← parseSeparator? ':' cs
  let (second, cs) ← parseNumber? 2 cs
  let (nanos, cs) ← parseFraction? cs
  let (offset, cs) ← parseOffset? (Text.trimFront cs)
  if (Text.trimFront cs).isEmpty then ofParts? year month day hour minute second nanos offset
  else none

/-- The instant that a text denotes. -/
def parse? (text : String) : Option Timestamp := parseChars? text.toList

end Timestamp

end WarmPool
