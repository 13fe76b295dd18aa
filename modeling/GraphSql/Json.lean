namespace GraphSql

/-- A JSON number: an integer stays exact, every other number is a double. -/
inductive Number where
  | integer (value : Int)
  | double (value : Float)
  deriving DecidableEq

/-- A JSON value; the members of an object are kept in the order of their keys. -/
inductive Json where
  | null
  | bool (value : Bool)
  | number (value : Number)
  | string (value : String)
  | array (items : List Json)
  | object (members : List (String × Json))

open Float.Model (Format UnpackedFloat) in
/-- The number of a format that is nearest to a finite number. -/
def nearestIn (format : Format) : UnpackedFloat → UnpackedFloat
  | .finite sign mantissa exponent _ => .round format sign mantissa exponent
  | other => other

/-- The double with the value of a single. -/
def widen (single : Float32) : Float := .ofModel (.pack (nearestIn .binary64 single.toModel.unpack))

/-- The single that is nearest to a double. -/
def narrow (double : Float) : Float32 := .ofModel (.pack (nearestIn .binary32 double.toModel.unpack))

namespace Json

/-- Adds a member to a list ordered by key; a later value replaces an earlier one. -/
def insertMember (key : String) (value : Json) : List (String × Json) → List (String × Json)
  | [] => [(key, value)]
  | (otherKey, otherValue) :: rest =>
      if key < otherKey then (key, value) :: (otherKey, otherValue) :: rest
      else if key = otherKey then (key, value) :: rest
      else (otherKey, otherValue) :: insertMember key value rest

/-- The object with the given members; of two members with one key the later counts. -/
def ofMembers (members : List (String × Json)) : Json :=
  .object (members.foldl (fun sorted member => insertMember member.1 member.2 sorted) [])

def ofNat (value : Nat) : Json := .number (.integer value)

def ofInt (value : Int) : Json := .number (.integer value)

def ofUInt64 (value : UInt64) : Json := .ofNat value.toNat

/-- A double that is not finite is null. -/
def ofDouble (value : Float) : Json := if value.isFinite then .number (.double value) else .null

def ofSingle (value : Float32) : Json := ofDouble (widen value)

def ofStrings (values : List String) : Json := .array (values.map .string)

/-- The value that stands for an absent one is `null`. -/
def ofOption {α : Type} (encode : α → Json) : Option α → Json
  | none => .null
  | some value => encode value

/-- The member with the given key. -/
def member? (value : Json) (key : String) : Option Json :=
  match value with
  | .object members => (members.find? fun member => member.1 == key).map Prod.snd
  | _ => none

def isNull : Json → Bool
  | .null => true
  | _ => false

end Json

end GraphSql
