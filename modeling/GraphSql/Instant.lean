namespace GraphSql

/-- A day of the Gregorian calendar, also before it was introduced. -/
structure Date where
  year : Int
  month : Nat
  day : Nat
  deriving DecidableEq, Repr

namespace Date

def isLeapYear (year : Int) : Bool := year % 4 == 0 && (year % 100 != 0 || year % 400 == 0)

def daysInMonth (year : Int) (month : Nat) : Nat :=
  if month = 2 then (if isLeapYear year then 29 else 28)
  else if month = 4 || month = 6 || month = 9 || month = 11 then 30
  else 31

/-- The calendar ends at the years that fit in it. -/
def isValid (date : Date) : Bool :=
  -262143 ≤ date.year && date.year ≤ 262142 && 1 ≤ date.month && date.month ≤ 12 &&
    1 ≤ date.day && date.day ≤ daysInMonth date.year date.month

def next (date : Date) : Date :=
  if date.day < daysInMonth date.year date.month then { date with day := date.day + 1 }
  else if date.month < 12 then { date with month := date.month + 1, day := 1 }
  else ⟨date.year + 1, 1, 1⟩

def previous (date : Date) : Date :=
  if 1 < date.day then { date with day := date.day - 1 }
  else if 1 < date.month then
    { date with month := date.month - 1, day := daysInMonth date.year (date.month - 1) }
  else ⟨date.year - 1, 12, 31⟩

end Date

/-- A point in time. A leap second is the second before it with a billion nanoseconds or more. -/
structure Instant where
  date : Date
  /-- The second of the day. -/
  second : Nat
  nanosecond : Nat
  deriving DecidableEq, Repr

namespace Instant

/-- Digits with zeros before them up to the width. -/
def padded (width value : Nat) : String :=
  let digits := Nat.toDigits 10 value
  String.ofList (List.replicate (width - digits.length) '0' ++ digits)

/-- Years outside of four digits have a sign. -/
def writeYear (year : Int) : String :=
  if 0 ≤ year && year ≤ 9999 then padded 4 year.toNat
  else (if year < 0 then "-" else "+") ++ padded 4 year.natAbs

/-- The text without its fraction and zone, and the nanoseconds that remain for the fraction. -/
def writeSeconds (instant : Instant) : String × Nat :=
  let leap := 1000000000 ≤ instant.nanosecond
  let second := instant.second % 60 + if leap then 1 else 0
  let minute := instant.second / 60 % 60
  let hour := instant.second / 3600
  (writeYear instant.date.year ++ "-" ++ padded 2 instant.date.month ++ "-" ++
      padded 2 instant.date.day ++ "T" ++ padded 2 hour ++ ":" ++ padded 2 minute ++ ":" ++
      padded 2 second,
    if leap then instant.nanosecond - 1000000000 else instant.nanosecond)

/-- As many of 0, 3, 6 or 9 digits of the second as are exact. -/
def writeFraction (nanosecond : Nat) : String :=
  if nanosecond = 0 then ""
  else if nanosecond % 1000000 = 0 then "." ++ padded 3 (nanosecond / 1000000)
  else if nanosecond % 1000 = 0 then "." ++ padded 6 (nanosecond / 1000)
  else "." ++ padded 9 nanosecond

def write (instant : Instant) : String :=
  let (text, nanosecond) := instant.writeSeconds
  text ++ writeFraction nanosecond ++ "Z"

/-- The form in which rows of the tables hold their times: milliseconds, the rest cut off. -/
def writeMilliseconds (instant : Instant) : String :=
  let (text, nanosecond) := instant.writeSeconds
  text ++ "." ++ padded 3 (nanosecond / 1000000) ++ "Z"

/-- The instant whose local time is the given one at an offset in seconds of less than a day. -/
def ofLocal (date : Date) (second nanosecond : Nat) (offset : Int) : Option Instant :=
  let shifted := (second : Int) - offset
  let instant : Instant :=
    if shifted < 0 then ⟨date.previous, (shifted + 86400).toNat, nanosecond⟩
    else if shifted < 86400 then ⟨date, shifted.toNat, nanosecond⟩
    else ⟨date.next, (shifted - 86400).toNat, nanosecond⟩
  if instant.date.isValid then some instant else none

end Instant

end GraphSql
