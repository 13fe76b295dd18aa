import GraphSql.Decimal.Shortest

namespace GraphSql.Decimal

/-- The decisions of one number format. -/
structure Layout where
  /-- Which exponents of the leading digit are written positionally. -/
  positional : Int → Bool
  /-- Which of two equally near decimals is written. -/
  tie : Tie
  /-- An integer keeps the ending `.0`. -/
  keepFraction : Bool
  infinity : Option String
  notANumber : Option String

def Digits.text (digits : Digits) : List Char := Nat.toDigits 10 digits.significand

/-- The exponent of the leading digit. -/
def Digits.leading (digits : Digits) : Int := digits.text.length + digits.exponent - 1

def Digits.writePositional (digits : Digits) (keepFraction : Bool) : List Char :=
  let text := digits.text
  let point := digits.leading + 1
  if 0 ≤ digits.exponent then
    text ++ List.replicate digits.exponent.toNat '0' ++ (if keepFraction then ['.', '0'] else [])
  else if 0 < point then
    text.take point.toNat ++ '.' :: text.drop point.toNat
  else
    '0' :: '.' :: (List.replicate (-point).toNat '0' ++ text)

/-- A positive exponent has a sign. -/
def Digits.writeScientific (digits : Digits) : List Char :=
  let mantissa := match digits.text with
    | first :: second :: rest => first :: '.' :: second :: rest
    | short => short
  let exponent := digits.leading
  let sign := if exponent < 0 then '-' else '+'
  mantissa ++ 'e' :: sign :: Nat.toDigits 10 exponent.natAbs

def Layout.writeMagnitude (layout : Layout) (digits : Digits) : List Char :=
  if layout.positional digits.leading then digits.writePositional layout.keepFraction
  else digits.writeScientific

/-- The text of a number; none where the format has no text for it. -/
def Layout.write (layout : Layout) : Class → Option String
  | .zero negative =>
      let text := layout.writeMagnitude ⟨0, 0⟩
      some (String.ofList (if negative then '-' :: text else text))
  | .finite negative magnitude =>
      let text := layout.writeMagnitude (magnitude.shortest layout.tie)
      some (String.ofList (if negative then '-' :: text else text))
  | .infinite negative => layout.infinity.map fun text => if negative then "-" ++ text else text
  | .notANumber => layout.notANumber

end GraphSql.Decimal
