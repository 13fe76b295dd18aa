import GraphSql.Instant
import GraphSql.Text.Blank
import GraphSql.Text.Case

namespace GraphSql.Instant

/-- A reader takes its text from the front of the characters that remain. -/
abbrev Scan := StateT (List Char) Option

namespace Scan

def skipBlanks : Scan Unit := modify (·.dropWhile Text.isBlank)

/-- One character that passes the test. -/
def one (test : Char → Bool) : Scan Char := do
  match ← get with
  | c :: rest => if test c then set rest; return c else failure
  | [] => failure

def value (digits : List Char) : Nat := digits.foldl (fun number digit => 10 * number + (digit.toNat - '0'.toNat)) 0

/-- At least one digit and at most as many as given. -/
def digits (most : Nat) : Scan (List Char) := do
  let rest ← get
  let taken := (rest.take most).takeWhile Char.isDigit
  if taken.isEmpty then failure
  set (rest.drop taken.length)
  return taken

/-- A number up to the given one. -/
def number (most greatest : Nat) : Scan Nat := do
  skipBlanks
  let result := value (← digits most)
  if result ≤ greatest then return result else failure

/-- At most four digits, or a sign and any number of digits. -/
def year : Scan Int := do
  skipBlanks
  let rest ← get
  match rest with
  | '-' :: rest =>
      set rest
      return -(value (← digits rest.length) : Int)
  | '+' :: rest =>
      set rest
      return value (← digits rest.length)
  | _ => return value (← digits 4)

def mark (expected : Char) : Scan Unit := do
  skipBlanks
  discard (one (· == expected))

def date : Scan Date := do
  let year ← year
  mark '-'
  let month ← number 2 12
  mark '-'
  let day ← number 2 31
  let result : Date := ⟨year, month, day⟩
  if result.isValid then return result else failure

/-- The digits after a point; the tenth and later ones do not count. -/
def fraction : Scan Nat := do
  match ← get with
  | '.' :: rest =>
      set rest
      let taken ← digits 9
      modify (·.dropWhile Char.isDigit)
      return value taken * Nat.pow 10 (9 - taken.length)
  | _ => return 0

/-- The second and the nanosecond of the day; second 60 is a leap second. -/
def time : Scan (Nat × Nat) := do
  let hour ← number 2 23
  mark ':'
  let minute ← number 2 59
  mark ':'
  let second ← number 2 60
  let nanosecond ← fraction
  let start := 3600 * hour + 60 * minute
  if second = 60 then return (start + 59, nanosecond + 1000000000)
  else return (start + second, nanosecond)

/-- Two digits, hours or minutes of an offset. -/
def pair : Scan Nat := do
  let first ← one Char.isDigit
  let second ← one Char.isDigit
  return value [first, second]

/-- A signed number of hours and minutes, in seconds. -/
def signedOffset : Scan Int := do
  let sign ← one fun c => c == '+' || c == '-' || c == '−'
  let hours ← pair
  modify (·.dropWhile fun c => c == ':' || Text.isBlank c)
  let minutes ← pair
  let seconds : Int := 3600 * hours + 60 * minutes
  if minutes < 60 && seconds < 86400 then return if sign == '+' then seconds else -seconds
  else failure

def offset : Scan Int := do
  skipBlanks
  let rest ← get
  if Text.lowerAscii (String.ofList (rest.take 3)) == "utc" then
    set (rest.drop 3)
    return 0
  match rest with
  | 'Z' :: rest | 'z' :: rest =>
      set rest
      return 0
  | _ => signedOffset

def instant : Scan Instant := do
  let date ← date
  discard (one fun c => c == 'T' || c == 't' || c == ' ')
  let (second, nanosecond) ← time
  let offset ← offset
  skipBlanks
  if (← get).isEmpty then ofLocal date second nanosecond offset else failure

end Scan

def read (text : String) : Option Instant := (Scan.instant.run text.toList).map Prod.fst

end GraphSql.Instant
