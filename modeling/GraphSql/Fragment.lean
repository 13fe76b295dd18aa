import GraphSql.Dialect
import GraphSql.Identifier
import GraphSql.Json.Printer
import GraphSql.Pattern

namespace GraphSql

/-- A place for one value. -/
inductive Slot where
  /-- The value is known. -/
  | value (value : Json)
  /-- The value is bound later, after the transform. -/
  | named (name : String) (transform : Transform)

inductive Piece where
  | text (text : String)
  | slot (slot : Slot)

structure Fragment where
  pieces : List Piece

namespace Fragment

def empty : Fragment := ⟨[]⟩

def ofString (text : String) : Fragment := ⟨[.text text]⟩

instance : Coe String Fragment := ⟨ofString⟩

instance : Append Fragment := ⟨fun first second => ⟨first.pieces ++ second.pieces⟩⟩

def ofSlot (slot : Slot) : Fragment := ⟨[.slot slot]⟩

def ofValue (value : Json) : Fragment := ofSlot (.value value)

def ofLiteral (value : String) : Fragment := ofString (Text.quoteLiteral value)

def ofIdentifier (name : Identifier) : Fragment := ofString name.quoted

def ofInt (value : Int) : Fragment := ofString (toString value)

def join (separator : String) : List Fragment → Fragment
  | [] => empty
  | [last] => last
  | first :: rest => first ++ ofString separator ++ join separator rest

def parenthesized (fragment : Fragment) : Fragment := "(" ++ fragment ++ ")"

def isEmpty (fragment : Fragment) : Bool :=
  fragment.pieces.all fun
    | .text text => text.isEmpty
    | .slot _ => false

def slots (fragment : Fragment) : List Slot :=
  fragment.pieces.filterMap fun
    | .text _ => none
    | .slot slot => some slot

/-- The text of the pieces when the first of their slots has the given position. -/
def textFrom (dialect : Dialect) : Nat → List Piece → List Char
  | _, [] => []
  | index, .text text :: rest => text.toList ++ textFrom dialect index rest
  | index, .slot _ :: rest =>
      dialect.placeholder index ++ textFrom dialect (index + 1) rest

variable (dialect : Dialect)

/-- The text with a placeholder for each slot. -/
def text (fragment : Fragment) : String := String.ofList (textFrom dialect 1 fragment.pieces)

/-- A value written into the text; arrays and objects are literals that hold their JSON text. -/
def inlineValue : Json → String
  | .null => "NULL"
  | .bool true => "TRUE"
  | .bool false => "FALSE"
  | .number value => value.write
  | .string value => Text.quoteLiteral value
  | value => Text.quoteLiteral value.write

def inlineSlot : Slot → String
  | .value value => inlineValue (dialect.bindValue value)
  | .named name _ => ":" ++ name

def inlinePiece : Piece → String
  | .text text => text
  | .slot slot => inlineSlot dialect slot

/-- The text with the known values written into it, for reading only. -/
def inline (fragment : Fragment) : String := String.join (fragment.pieces.map (inlinePiece dialect))

theorem pieces_append (first second : Fragment) : (first ++ second).pieces = first.pieces ++ second.pieces := rfl

@[simp] theorem slots_append (first second : Fragment) : (first ++ second).slots = first.slots ++ second.slots := by
  simp [slots, pieces_append]

@[simp] theorem slots_ofString (text : String) : (ofString text).slots = [] := rfl

theorem slots_join (separator : String) (fragments : List Fragment) :
    (join separator fragments).slots = fragments.flatMap slots := by
  induction fragments with
  | nil => rfl
  | cons first rest ih =>
      cases rest with
      | nil => simp [join]
      | cons second others =>
          rw [join.eq_3 _ _ _ (by simp), slots_append, slots_append, slots_ofString, ih, List.append_nil]
          rfl

theorem slots_parenthesized (fragment : Fragment) : fragment.parenthesized.slots = fragment.slots := by
  simp [parenthesized]

theorem textFrom_append (dialect : Dialect) (index : Nat) (first second : List Piece) :
    textFrom dialect index (first ++ second) = textFrom dialect index first ++
        textFrom dialect (index + (Fragment.mk first).slots.length) second := by
  induction first generalizing index with
  | nil => simp [textFrom, slots]
  | cons piece rest ih =>
      cases piece with
      | text text => simp [textFrom, slots, ih]
      | slot slot =>
          simp [textFrom, slots, ih, Nat.add_comm 1, Nat.add_assoc]

end Fragment

end GraphSql
