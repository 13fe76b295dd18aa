import GraphSql.Analysis.Validation

namespace GraphSql

/-- The literals of an operand; an array is a list of literals where the operator takes a list. -/
def Operand.literals (asList : Bool) : Operand → List Json
  | .literal (.array items) _ => if asList then items else [.array items]
  | .literal value _ => [value]
  | .list values _ => values
  | .parameter .. => []

/-- The one type of all literals that have one. -/
def literalType (known : Option ValueType) : List Json → Attempt (Option ValueType)
  | [] => .ok known
  | value :: rest =>
      match ValueType.ofJson value, known with
      | .unknown, _ => literalType known rest
      | found, none => literalType (some found) rest
      | found, some existing =>
          if existing = found then literalType known rest
          else .error (.unsupported (.mixedLiterals existing found))

namespace Operand

/-- A declared type goes before that of the literals. -/
def type (operand : Operand) (asList : Bool) : Attempt (Option ValueType) :=
  match operand.explicitType with
  | some declared => .ok (some declared)
  | none => literalType none (operand.literals asList)

/-- The first array or object among the literals, whatever type is declared. -/
def containerType (operand : Operand) (asList : Bool) : Option ValueType :=
  (operand.literals asList).map ValueType.ofJson |>.find? ValueType.isContainer

/-- The operand as one value, after the transform. -/
def term (transform : Transform) : Operand → Attempt Term
  | .literal value _ =>
      match transform.apply value with
      | some result => .ok (.value result)
      | none => .error (.unsupported (.patternValue value.write))
  | .parameter name _ => .ok (.slot (.named name transform))
  | .list .. => .error (.unsupported .listOperand)

/-- The operand as the elements of a list. -/
def elements : Operand → Attempt (List Term)
  | .list values _ | .literal (.array values) _ => .ok (values.map Term.value)
  | other => (other.term .identity).map ([·])

end Operand

/-- What operands tell about the type of a predicate. -/
inductive TypeEvidence where
  /-- An operand declares the type. -/
  | declared (valueType : ValueType)
  /-- The literals have the type, if any of them has one. -/
  | literal (valueType : Option ValueType)
  deriving DecidableEq, Repr

/-- Looks at operands until one of them declares a type; literals before it may not be mixed. -/
def typeEvidence (mixed : ValueType → ValueType → Unsupported) (asList : Bool)
    (known : Option ValueType) : List Operand → Attempt TypeEvidence
  | [] => .ok (.literal known)
  | operand :: rest =>
      match operand.explicitType with
      | some declared => .ok (.declared declared)
      | none => do
          match known, ← operand.type asList with
          | some first, some second =>
              if first = second then typeEvidence mixed asList known rest
              else .error (.unsupported (mixed first second))
          | some first, none => typeEvidence mixed asList (some first) rest
          | none, found => typeEvidence mixed asList found rest

namespace Field

/-- The operator takes no arrays, objects or embeddings. -/
def rejectContainer (field : Field) (op : String) (valueType : ValueType) : Attempt Unit :=
  if valueType.isContainer then
    .error (.unsupported (.container op valueType field.describe))
  else .ok ()

/-- The type in which a field is compared with operands: the declared type of an operand, then that
of the field, then that of the literals. -/
def comparisonType (field : Field) (op : String) (asList : Bool) (operands : List Operand) :
    Attempt ValueType := do
  operands.forM fun operand =>
    match operand.containerType asList with
    | some container => field.rejectContainer op container
    | none => .ok ()
  match ← typeEvidence (.mixedOperands field.describe) asList none operands with
  | .declared valueType => return valueType
  | .literal valueType => return (field.declaredType.or valueType).getD .unknown

/-- The type of the elements that an array is searched for. -/
def elementType (field : Field) (operands : List Operand) : Attempt ValueType := do
  match ← typeEvidence (.mixedElements field.describe) true none operands with
  | .declared valueType => return valueType
  | .literal valueType => return valueType.getD .string

end Field

end GraphSql
