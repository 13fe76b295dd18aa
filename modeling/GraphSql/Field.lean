import GraphSql.Column
import GraphSql.Pointer

namespace GraphSql

structure Field where
  aliasName : String
  path : List String := []
  pointer : Option Pointer := none
  valueType : Option ValueType := none
  deriving DecidableEq, Repr

/-- What a field denotes. -/
inductive Target where
  /-- The alias with all its columns. -/
  | whole
  | column (column : Column)
  /-- A value inside the `props` document. -/
  | property (pointer : Pointer)
  deriving DecidableEq, Repr

/-- Why a field denotes nothing. -/
inductive FieldFault where
  | unknownColumn (name aliasName : String)
  | unknownPath (path : List String) (aliasName : String)
  deriving DecidableEq, Repr

def FieldFault.message : FieldFault → String
  | .unknownColumn name aliasName => s!"unknown system column '{name}' on '{aliasName}'"
  | .unknownPath path aliasName =>
      let joined := String.intercalate "." path
      s!"field path '{joined}' on '{aliasName}' must start with 'props' or name a system column"

namespace Field

/-- The alias itself. -/
def ofAlias (aliasName : String) : Field where
  aliasName

def ofColumn (aliasName column : String) : Field where
  aliasName
  path := [column]

/-- A property at the top of the document. -/
def ofProperty (aliasName name : String) : Field where
  aliasName
  path := ["props", name]

def ofPointer (aliasName : String) (pointer : Pointer) : Field where
  aliasName
  path := ["props"]
  pointer := some pointer

variable (field : Field)

def typed (valueType : ValueType) : Field := { field with valueType := some valueType }

/-- A path that starts with `props` and a pointer address one property together; any other path
names a column. -/
def target : Except FieldFault Target :=
  match field.path with
  | [] =>
      match field.pointer with
      | none => .ok .whole
      | some pointer => .ok (.property pointer)
  | head :: rest =>
      if head = "props" then
        .ok (.property ((⟨rest⟩ : Pointer).join (field.pointer.getD .root)))
      else
        match rest with
        | [] =>
            match Column.ofName? head with
            | some column => .ok (.column column)
            | none => .error (.unknownColumn head field.aliasName)
        | _ => .error (.unknownPath field.path field.aliasName)

/-- The field is valid and denotes the target. -/
def denotes (expected : Target) : Bool :=
  match field.target with
  | .ok found => found == expected
  | .error _ => false

/-- A column has a type of its own where none is declared. -/
def declaredType : Option ValueType :=
  match field.valueType with
  | some valueType => some valueType
  | none =>
      match field.target with
      | .ok (.column column) => some column.valueType
      | _ => none

/-- The field as messages name it. -/
def describe : String :=
  match field.target with
  | .ok .whole => field.aliasName
  | .ok (.column column) => field.aliasName ++ "." ++ column.name
  | .ok (.property pointer) => field.aliasName ++ ".props" ++ pointer.display
  | .error _ => field.aliasName ++ "." ++ String.intercalate "." field.path

end Field

end GraphSql
