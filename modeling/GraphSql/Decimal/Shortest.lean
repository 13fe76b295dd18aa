namespace GraphSql.Decimal

/-- A positive binary number `mantissa * 2 ^ exponent`; `atPowerOfTwo` says that the next smaller
number of its format is only half as far away as the next larger one. -/
structure Binary where
  mantissa : Nat
  exponent : Int
  atPowerOfTwo : Bool
  deriving DecidableEq, Repr

/-- The decimal `significand * 10 ^ exponent`. -/
structure Digits where
  significand : Nat
  exponent : Int
  deriving DecidableEq, Repr

/-- A nonnegative fraction in exact arithmetic. -/
structure Ratio where
  numerator : Nat
  denominator : Nat
  deriving DecidableEq, Repr

/-- The fraction `coefficient * base ^ exponent`. -/
def Ratio.scaled (coefficient base : Nat) : Int → Ratio
  | .ofNat power => ⟨coefficient * Nat.pow base power, 1⟩
  | .negSucc power => ⟨coefficient, Nat.pow base (power + 1)⟩

def Ratio.le (first second : Ratio) : Bool :=
  first.numerator * second.denominator ≤ second.numerator * first.denominator

def Ratio.lt (first second : Ratio) : Bool :=
  first.numerator * second.denominator < second.numerator * first.denominator

def Ratio.add (first second : Ratio) : Ratio :=
  ⟨first.numerator * second.denominator + second.numerator * first.denominator, first.denominator * second.denominator⟩

def Binary.value (binary : Binary) : Ratio := .scaled binary.mantissa 2 binary.exponent

/-- The midpoint between a number and the next smaller one. -/
def Binary.lower (binary : Binary) : Ratio :=
  if binary.atPowerOfTwo then .scaled (4 * binary.mantissa - 1) 2 (binary.exponent - 2)
  else .scaled (2 * binary.mantissa - 1) 2 (binary.exponent - 1)

/-- The midpoint between a number and the next larger one. -/
def Binary.upper (binary : Binary) : Ratio := .scaled (2 * binary.mantissa + 1) 2 (binary.exponent - 1)

/-- A decimal reads back as the number if it lies between the midpoints; a midpoint itself reads
back as the number with the even mantissa. -/
def Binary.contains (binary : Binary) (candidate : Ratio) : Bool :=
  if binary.mantissa % 2 == 0 then binary.lower.le candidate && candidate.le binary.upper
  else binary.lower.lt candidate && candidate.lt binary.upper

def digitCount (n : Nat) : Nat := (Nat.toDigits 10 n).length

/-- The least `e` with `value < 10 ^ e`. -/
def Ratio.magnitude (value : Ratio) : Int :=
  let guess : Int :=
    if value.denominator ≤ value.numerator then digitCount (value.numerator / value.denominator)
    else 1 - (digitCount (value.denominator / value.numerator) : Int)
  if (Ratio.scaled 1 10 guess).le value then guess + 1 else guess

/-- The integer part of `value / 10 ^ exponent`. -/
def Ratio.floorAt (value : Ratio) : Int → Nat
  | .ofNat power => value.numerator / (value.denominator * Nat.pow 10 power)
  | .negSucc power => value.numerator * Nat.pow 10 (power + 1) / value.denominator

/-- Which of two decimals is taken when both are equally near. -/
inductive Tie where
  | toEven
  | upward
  deriving DecidableEq, Repr

/-- The lower of two neighbours is taken in a tie. -/
def Tie.takesLower (tie : Tie) (below : Nat) : Bool := tie == .toEven && below % 2 == 0

/-- The decimal on the grid of `10 ^ exponent` that reads back as the number, the nearer of two. -/
def Binary.onGrid (binary : Binary) (tie : Tie) (exponent : Int) : Option Digits :=
  let below := binary.value.floorAt exponent
  let low := Ratio.scaled below 10 exponent
  let high := Ratio.scaled (below + 1) 10 exponent
  match binary.contains low, binary.contains high with
  | true, true =>
      -- Twice the value against the sum of both neighbours decides which one is nearer.
      let doubled := binary.value.add binary.value
      let sum := low.add high
      if doubled.lt sum || (doubled.le sum && tie.takesLower below) then some ⟨below, exponent⟩
      else some ⟨below + 1, exponent⟩
  | true, false => some ⟨below, exponent⟩
  | false, true => some ⟨below + 1, exponent⟩
  | false, false => none

/-- Drops trailing zeros, at most `fuel` of them. -/
def Digits.trim : Nat → Digits → Digits
  | 0, digits => digits
  | fuel + 1, digits =>
      if digits.significand != 0 && digits.significand % 10 == 0 then
        Digits.trim fuel ⟨digits.significand / 10, digits.exponent + 1⟩
      else digits

/-- The decimal with the fewest digits that reads back as the number. -/
def Binary.shortest (binary : Binary) (tie : Tie) : Digits :=
  let magnitude := binary.value.magnitude
  let grids := (List.range 17).map fun (count : Nat) => magnitude - (count : Int) - 1
  match grids.findSome? (binary.onGrid tie) with
  | some digits => digits.trim (digitCount digits.significand)
  | none => ⟨binary.value.floorAt (magnitude - 17), magnitude - 17⟩

/-- What the bits of a floating-point number say. -/
inductive Class where
  | zero (negative : Bool)
  | finite (negative : Bool) (magnitude : Binary)
  | infinite (negative : Bool)
  | notANumber
  deriving DecidableEq, Repr

/-- Reads the bits of a number with the given sizes of fraction and exponent field and the exponent
of its smallest unit. -/
def classify (fractionSize fieldSize : Nat) (unit : Int) (bits : Nat) : Class :=
  let fraction := bits % Nat.pow 2 fractionSize
  let field := bits / Nat.pow 2 fractionSize % Nat.pow 2 fieldSize
  let negative : Bool := Nat.pow 2 (fractionSize + fieldSize) ≤ bits
  if field == Nat.pow 2 fieldSize - 1 then
    if fraction == 0 then .infinite negative else .notANumber
  else if field == 0 then
    if fraction == 0 then .zero negative else .finite negative ⟨fraction, unit, false⟩
  else
    .finite negative ⟨Nat.pow 2 fractionSize + fraction, unit + (field : Int) - 1, fraction == 0 && field != 1⟩

def classifyDouble (x : Float) : Class := classify 52 11 (-1074) x.toBits.toNat

def classifySingle (x : Float32) : Class := classify 23 8 (-149) x.toBits.toNat

end GraphSql.Decimal
