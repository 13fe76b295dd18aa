import GraphSql.Json

namespace GraphSql

namespace Number

def digitValue (c : Char) : Nat := c.toNat - '0'.toNat

/-- Continues a number with digits as long as it fits into 64 bits, and counts the digits that are
left over. -/
def takeDigits (known : Nat) : List Char → Nat × Nat
  | [] => (known, 0)
  | c :: rest =>
      let next := 10 * known + digitValue c
      if next < UInt64.size then takeDigits next rest else (known, rest.length + 1)

/-- The greatest exponent of ten among the doubles. -/
def greatestExponent : Nat := 308

def powerOfTen (exponent : Nat) : Float := Float.ofScientific 1 false exponent

def scaledDown (value : Float) (places : Nat) : Float :=
  if places ≤ greatestExponent then value / powerOfTen places
  else if places ≤ 2 * greatestExponent then
    value / powerOfTen greatestExponent / powerOfTen (places - greatestExponent)
  else 0.0

/-- An integer of 64 bits times a power of ten. The integer is rounded to a double before it is
scaled. A number beyond the doubles is refused. -/
def scaled (significand : Nat) (scale : Int) : Option Float :=
  let value := (UInt64.ofNat significand).toFloat
  match scale with
  | .ofNat places =>
      if significand = 0 then some 0.0
      else if greatestExponent < places then none
      else
        let product := value * powerOfTen places
        if product.isInf then none else some product
  | .negSucc places => some (scaledDown value (places + 1))

/-- An integer without fraction and exponent stays exact between `-2 ^ 63` and `2 ^ 64 - 1`; the
integer `-0` and every other number is a double. -/
def ofParts (negative : Bool) (whole fraction : List Char) (exponent : Option Int) : Option Number :=
  let (magnitude, leftOver) := takeDigits 0 whole
  let signed : Int := if negative then -magnitude else magnitude
  let isExact := fraction.isEmpty && exponent.isNone && leftOver == 0 &&
    !(negative && magnitude == 0) && Int64.minValue.toInt ≤ signed
  if isExact then some (.integer signed)
  else
    let (significand, dropped) := takeDigits magnitude fraction
    let scale : Int := exponent.getD 0 + leftOver - (fraction.length - dropped : Nat)
    (scaled significand scale).map fun value => .double (if negative then -value else value)

end Number

namespace Json

def isSpace (c : Char) : Bool := c = ' ' || c = '\n' || c = '\r' || c = '\t'

def skipSpace (text : List Char) : List Char := text.dropWhile isSpace

/-- The digits at the front of the text; at least one is required. -/
def readDigits (text : List Char) : Option (List Char × List Char) :=
  match text.takeWhile Char.isDigit with
  | [] => none
  | digits => some (digits, text.dropWhile Char.isDigit)

/-- A leading zero stands alone. -/
def readWhole (text : List Char) : Option (List Char × List Char) :=
  match text with
  | '0' :: rest => some (['0'], rest)
  | _ => readDigits text

def readFraction : List Char → Option (List Char × List Char)
  | '.' :: rest => readDigits rest
  | text => some ([], text)

def readExponentDigits (negative : Bool) (text : List Char) : Option (Option Int × List Char) := do
  let (digits, rest) ← readDigits text
  let magnitude := digits.foldl (fun value c => 10 * value + Number.digitValue c) 0
  return (some (if negative then -(magnitude : Int) else magnitude), rest)

def readExponent (text : List Char) : Option (Option Int × List Char) :=
  match text with
  | c :: rest =>
      if c = 'e' || c = 'E' then
        match rest with
        | '+' :: digits => readExponentDigits false digits
        | '-' :: digits => readExponentDigits true digits
        | _ => readExponentDigits false rest
      else some (none, text)
  | [] => some (none, [])

def readUnsigned (negative : Bool) (text : List Char) : Option (Json × List Char) := do
  let (whole, afterWhole) ← readWhole text
  let (fraction, afterFraction) ← readFraction afterWhole
  let (exponent, rest) ← readExponent afterFraction
  let number ← Number.ofParts negative whole fraction exponent
  return (.number number, rest)

def hexValue (c : Char) : Option Nat :=
  if '0' ≤ c && c ≤ '9' then some (c.toNat - '0'.toNat)
  else if 'a' ≤ c && c ≤ 'f' then some (c.toNat - 'a'.toNat + 10)
  else if 'A' ≤ c && c ≤ 'F' then some (c.toNat - 'A'.toNat + 10)
  else none

def readUnit : List Char → Option (Nat × List Char)
  | a :: b :: c :: d :: rest => do
      let a ← hexValue a
      let b ← hexValue b
      let c ← hexValue c
      let d ← hexValue d
      return (a * 4096 + b * 256 + c * 16 + d, rest)
  | _ => none

/-- The character after `\u`; a high surrogate needs the low one that completes it. -/
def readCodePoint (text : List Char) : Option (Char × List Char) := do
  let (unit, rest) ← readUnit text
  if 0xD800 ≤ unit && unit < 0xDC00 then
    match rest with
    | '\\' :: 'u' :: afterMark =>
        let (low, final) ← readUnit afterMark
        if 0xDC00 ≤ low && low < 0xE000 then
          return (Char.ofNat (0x10000 + (unit - 0xD800) * 0x400 + (low - 0xDC00)), final)
        else none
    | _ => none
  else if 0xDC00 ≤ unit && unit < 0xE000 then none
  else return (Char.ofNat unit, rest)

def readEscape : List Char → Option (Char × List Char)
  | '"' :: rest => some ('"', rest)
  | '\\' :: rest => some ('\\', rest)
  | '/' :: rest => some ('/', rest)
  | 'b' :: rest => some ('\x08', rest)
  | 'f' :: rest => some ('\x0c', rest)
  | 'n' :: rest => some ('\n', rest)
  | 'r' :: rest => some ('\r', rest)
  | 't' :: rest => some ('\t', rest)
  | 'u' :: rest => readCodePoint rest
  | _ => none

/-- The rest of a string after its opening quote, with the characters read so far in reverse. -/
def readStringFrom : Nat → List Char → List Char → Option (String × List Char)
  | 0, _, _ => none
  | fuel + 1, done, text =>
      match text with
      | [] => none
      | '"' :: rest => some (String.ofList done.reverse, rest)
      | '\\' :: rest => do
          let (c, final) ← readEscape rest
          readStringFrom fuel (c :: done) final
      | c :: rest => if c.toNat < 0x20 then none else readStringFrom fuel (c :: done) rest

def readString (text : List Char) : Option (String × List Char) := readStringFrom (text.length + 1) [] text

mutual

/-- Reads one value at the front of the text. -/
def readValue : Nat → List Char → Option (Json × List Char)
  | 0, _ => none
  | fuel + 1, text =>
      match skipSpace text with
      | 'n' :: 'u' :: 'l' :: 'l' :: rest => some (.null, rest)
      | 't' :: 'r' :: 'u' :: 'e' :: rest => some (.bool true, rest)
      | 'f' :: 'a' :: 'l' :: 's' :: 'e' :: rest => some (.bool false, rest)
      | '"' :: rest => (readString rest).map fun (value, final) => (.string value, final)
      | '[' :: rest =>
          match skipSpace rest with
          | ']' :: final => some (.array [], final)
          | items => (readItems fuel items).map fun (values, final) => (.array values, final)
      | '\x7b' :: rest =>
          match skipSpace rest with
          | '\x7d' :: final => some (.object [], final)
          | members =>
              (readMembers fuel members).map fun (values, final) => (ofMembers values, final)
      | '-' :: rest => readUnsigned true rest
      | other => readUnsigned false other

def readItems : Nat → List Char → Option (List Json × List Char)
  | 0, _ => none
  | fuel + 1, text => do
      let (item, rest) ← readValue fuel text
      match skipSpace rest with
      | ']' :: final => return ([item], final)
      | ',' :: next =>
          let (items, final) ← readItems fuel next
          return (item :: items, final)
      | _ => none

def readMembers : Nat → List Char → Option (List (String × Json) × List Char)
  | 0, _ => none
  | fuel + 1, text =>
      match skipSpace text with
      | '"' :: afterQuote => do
          let (key, afterKey) ← readString afterQuote
          match skipSpace afterKey with
          | ':' :: afterColon =>
              let (value, rest) ← readValue fuel afterColon
              match skipSpace rest with
              | '\x7d' :: final => return ([(key, value)], final)
              | ',' :: next =>
                  let (members, final) ← readMembers fuel next
                  return ((key, value) :: members, final)
              | _ => none
          | _ => none
      | _ => none

end

/-- Reads a text that holds one value and nothing else but blanks. -/
def read (text : String) : Option Json := do
  let characters := text.toList
  -- Every step of the reader has consumed a character or is followed by one that does.
  let (value, rest) ← readValue (2 * characters.length + 2) characters
  if (skipSpace rest).isEmpty then return value else none

end Json

end GraphSql
