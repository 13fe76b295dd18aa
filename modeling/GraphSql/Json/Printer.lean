import GraphSql.Decimal.Layout
import GraphSql.Json

namespace GraphSql

/-- Doubles are positional from `0.00001` to below `1e+16` and keep a fraction digit; a double that
is not finite has no text. -/
def Number.layout : Decimal.Layout where
  positional exponent := -5 ≤ exponent && exponent ≤ 15
  tie := .toEven
  keepFraction := true
  infinity := none
  notANumber := none

def Number.write : Number → String
  | .integer value => toString value
  | .double value => (Number.layout.write (Decimal.classifyDouble value)).getD "null"

namespace Json

def hexDigit (n : Nat) : Char := Nat.digitChar (n % 16)

/-- A quote, a backslash and control characters are escaped; all else stands for itself. -/
def escapeChar (c : Char) : List Char :=
  if c = '"' then ['\\', '"']
  else if c = '\\' then ['\\', '\\']
  else if c = '\n' then ['\\', 'n']
  else if c = '\r' then ['\\', 'r']
  else if c = '\t' then ['\\', 't']
  else if c = '\x08' then ['\\', 'b']
  else if c = '\x0c' then ['\\', 'f']
  else if c.toNat < 0x20 then
    ['\\', 'u', '0', '0', hexDigit (c.toNat / 16), hexDigit c.toNat]
  else [c]

def quote (text : String) : String := String.ofList ('"' :: (text.toList.flatMap escapeChar ++ ['"']))

mutual

/-- The compact text of a value, members in the order of their keys. -/
def write : Json → String
  | .null => "null"
  | .bool true => "true"
  | .bool false => "false"
  | .number value => value.write
  | .string value => quote value
  | .array items => "[" ++ String.intercalate "," (writeItems items) ++ "]"
  | .object members => "\x7b" ++ String.intercalate "," (writeMembers members) ++ "\x7d"

def writeItems : List Json → List String
  | [] => []
  | item :: rest => write item :: writeItems rest

def writeMembers : List (String × Json) → List String
  | [] => []
  | (key, value) :: rest => (quote key ++ ":" ++ write value) :: writeMembers rest

end

end Json

end GraphSql
