import GraphSql.Json
import GraphSql.Named

namespace GraphSql

inductive ValueType where
  | string
  | number
  | boolean
  | date
  | array
  | object
  | embedding
  | unknown
  deriving DecidableEq, Repr

instance : Named ValueType where
  members := [.string, .number, .boolean, .date, .array, .object, .embedding, .unknown]
  name
    | .string => "string"
    | .number => "number"
    | .boolean => "boolean"
    | .date => "date"
    | .array => "array"
    | .object => "object"
    | .embedding => "embedding"
    | .unknown => "unknown"

/-- How a value is taken out of a JSON document. -/
inductive Extraction where
  | text
  | number
  | boolean
  | date
  /-- The JSON value itself. -/
  | raw
  deriving DecidableEq, Repr

instance : Named Extraction where
  members := [.text, .number, .boolean, .date, .raw]
  name
    | .text => "text"
    | .number => "number"
    | .boolean => "boolean"
    | .date => "date"
    | .raw => "raw"

namespace ValueType

def name (type : ValueType) : String := Named.name type

/-- Values that scalar operators can neither compare nor order. -/
def isContainer : ValueType → Bool
  | .array | .object | .embedding => true
  | _ => false

/-- The type of a literal; `null` tells nothing. -/
def ofJson : Json → ValueType
  | .null => .unknown
  | .bool _ => .boolean
  | .number _ => .number
  | .string _ => .string
  | .array _ => .array
  | .object _ => .object

def extraction : ValueType → Extraction
  | .string | .unknown => .text
  | .number => .number
  | .boolean => .boolean
  | .date => .date
  | .array | .object | .embedding => .raw

/-- Values of two types may be compared; dates are written as strings. -/
def compatible (first second : ValueType) : Bool :=
  first == second || first == .unknown || second == .unknown ||
    (first == .date && second == .string) || (first == .string && second == .date)

end ValueType

end GraphSql
