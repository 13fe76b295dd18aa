import GraphSql.Lowering.Operand
import GraphSql.Statement.Select
import GraphSql.Traced

namespace GraphSql

/-- What a predicate needs to know about a nested query. -/
structure Nested where
  projection : List Projection
  /-- Its statement, and what its compilation logs. -/
  outcome : Traced Statement

namespace Field

/-- The term that reads a field, a property in the given form. -/
def read (field : Field) (scope : Scope) (extraction : Extraction) : Attempt Term := do
  match ← field.resolve with
  | .column column => scope.column field.aliasName column
  | .property pointer => do
      let document ← scope.column field.aliasName .props
      return .extract document pointer extraction
  | .whole => .error (.unsupported (.wholeAlias field.aliasName))

/-- The term that reads a field in its declared type; other properties are read as text. -/
def readTyped (field : Field) (scope : Scope) : Attempt Term :=
  field.read scope (field.declaredType.getD .unknown).extraction

def propertyPointer (field : Field) (what : String) : Attempt Pointer := do
  match ← field.resolve with
  | .property pointer => return pointer
  | .column _ | .whole => .error (.unsupported (.propertyNeeded what field.describe))

end Field

namespace Aggregate

/-- What the function is computed over. Only counts take a whole alias. -/
def argument (aggregate : Aggregate) (scope : Scope) : Attempt Term := do
  let field := aggregate.field
  match aggregate.function, ← field.resolve with
  | .count, .whole | .countDistinct, .whole => scope.column field.aliasName .id
  | function, .whole => .error (.unsupported (.aggregateOverAlias function field.aliasName))
  | .sum, _ | .average, _ => field.read scope .number
  | .least, _ | .greatest, _ => do
      field.rejectContainer "min/max" (field.declaredType.getD .unknown)
      field.readTyped scope
  | .count, _ | .countDistinct, _ => field.read scope .raw

def lower (aggregate : Aggregate) (scope : Scope) : Attempt Term := do
  if scope.aggregates then return .aggregate aggregate.function (← aggregate.argument scope)
  else
    .error (.unsupported (.aggregatePlace aggregate.function aggregate.field.describe))

end Aggregate

namespace Predicate

/-- A condition before the statements nested in it are compiled. -/
abbrev Lowered := Attempt (Condition Statement)

variable (scope : Scope) (field : Field)

/-- The values of a set that an operator looks a field up in. -/
def membershipValues (op : Comparison) : Operand → Attempt (List Json)
  | .list values _ | .literal (.array values) _ => .ok values
  | .literal value _ => .ok [value]
  | .parameter name _ =>
      .error (.unsupported (.membershipParameter op field.describe name))

/-- No value is in an empty set. -/
def lowerMembership (left : Term) (values : List Json) (negated : Bool) : Condition Statement :=
  if values.isEmpty then .constant negated else .isIn left (values.map Term.value) negated

/-- Comparing with null asks whether a value is there. -/
def lowerNullComparison (op : Comparison) (left : Term) : Lowered :=
  match op with
  | .equal => .ok (.isNull left false)
  | .notEqual => .ok (.isNull left true)
  | _ => .error (.unsupported (.nullComparison field.describe op))

def lowerComparison (op : Comparison) (value : Operand) : Lowered := do
  let valueType ← field.comparisonType op.keyword op.isMembership [value]
  field.rejectContainer op.keyword valueType
  let left ← field.read scope valueType.extraction
  match op.comparator? with
  | none =>
      return lowerMembership left (← membershipValues field op value) (op == .notIn)
  | some comparator =>
      match value with
      | .literal .null _ => lowerNullComparison field op left
      | _ => return .compare left comparator (← value.term .identity)

/-- The pattern that an operator makes of its operand. -/
def patternTransform (dialect : Dialect) : TextOperator → Transform
  | .contains => .contains
  | .startsWith => .startsWith
  | .endsWith => .endsWith
  | .ilike => .escaped
  | .like => dialect.likeTransform

def lowerText (dialect : Dialect) (scope : Scope) (field : Field) (op : TextOperator)
    (pattern : Operand) : Lowered := do
  if let some valueType := field.valueType then
    field.rejectContainer "string operator" valueType
  let text ← field.read scope .text
  let pattern ← pattern.term (patternTransform dialect op)
  match op with
  | .like => return .like text pattern
  | .contains | .startsWith | .endsWith | .ilike => return .ilike text pattern

def lowerNullCheck (op : NullCheck) : Lowered := do
  let negated := op == .isNotNull
  match ← field.resolve with
  | .whole => return .isNull (← scope.column field.aliasName .id) negated
  | .column column => return .isNull (← scope.column field.aliasName column) negated
  | .property pointer => return .pathIsNull (← scope.column field.aliasName .props) pointer negated

def lowerBetween (lower upper : Operand) : Lowered := do
  let valueType ← field.comparisonType "between" false [lower, upper]
  field.rejectContainer "between" valueType
  let term ← field.read scope valueType.extraction
  return .between term (← lower.term .identity) (← upper.term .identity)

def firstValue (op : ArrayOperator) : List Operand → Attempt Operand
  | [] => .error (.unsupported (.arrayValue op field.describe))
  | value :: _ => .ok value

/-- The length of an array is compared with the first operand. -/
def lowerLength (op : ArrayOperator) (values : List Operand) (length : Term)
    (comparator : Comparator) : Lowered := do
  let value ← firstValue field op values
  return .compare length comparator (← value.term .identity)

/-- The elements of all operands in a row. -/
def allElements : List Operand → Attempt (List Term)
  | [] => .ok []
  | operand :: rest => do return (← operand.elements) ++ (← allElements rest)

def lowerArray (op : ArrayOperator) (values : List Operand) : Lowered := do
  let pointer ← field.propertyPointer "array operators"
  let document ← scope.column field.aliasName .props
  let length := Term.arrayLength document pointer
  match op with
  | .isEmpty => return .compare (.orZero length) .equal (.integer 0)
  | .isNotEmpty => return .compare length .greater (.integer 0)
  | .lengthEqual => lowerLength field op values length .equal
  | .lengthGreater => lowerLength field op values length .greater
  | .lengthGreaterOrEqual => lowerLength field op values length .greaterOrEqual
  | .lengthLess => lowerLength field op values length .less
  | .lengthLessOrEqual => lowerLength field op values length .lessOrEqual
  | .contains => do
      let value ← firstValue field op values
      let elementType ← field.elementType [value]
      return .arrayContains document pointer elementType (← value.term .identity)
  | .containsAll => do
      let elementType ← field.elementType values
      let elements ← allElements values
      if elements.isEmpty then return .constant true
      else return .arrayContainsAll document pointer elementType elements
  | .containsAny => do
      let elementType ← field.elementType values
      let elements ← allElements values
      if elements.isEmpty then return .constant false
      else return .arrayContainsAny document pointer elementType elements

def neededValue (op : ObjectOperator) : Option Operand → Attempt Operand
  | none => .error (.unsupported (.objectValue op field.describe))
  | some value => .ok value

def lowerObject (op : ObjectOperator) (pointer : Pointer) (value : Option Operand) : Lowered := do
  let base ← field.propertyPointer "object operators"
  let pointer := base.join pointer
  let document ← scope.column field.aliasName .props
  match op with
  | .hasPath => return .hasPath document pointer
  | .pathIsNull => return .pathIsNull document pointer false
  | .pathIsNotNull => return .pathIsNull document pointer true
  | .pathEquals => do
      let value ← neededValue field op value
      let valueType := (← value.type false).getD .unknown
      field.rejectContainer "path_equals" valueType
      return .compare (.extract document pointer valueType.extraction) .equal (← value.term .identity)
  | .pathContains => do
      let value ← neededValue field op value
      let valueType := (← value.type false).getD .unknown
      return .arrayContains document pointer valueType (← value.term .identity)

def lowerAggregate (aggregate : Aggregate) (op : Comparison) (value : Operand) : Lowered := do
  match op.comparator? with
  | none => .error (.unsupported (.aggregateMembership op))
  | some comparator =>
      return .compare (← aggregate.lower scope) comparator (← value.term .identity)

/-- The type of the only column of a nested query. -/
def subqueryType : List Projection → Attempt (Option ValueType)
  | [projection] =>
      match projection.source with
      | .field target => do
          match ← target.resolve with
          | .whole => .error (.unsupported (.subqueryAlias field.describe target.aliasName))
          | .column _ | .property _ => return target.declaredType
      | .aggregate expression =>
          .ok (some (expression.function.resultType expression.field.declaredType))
  | projections => .error (.unsupported (.subqueryWidth field.describe projections.length))

/-- The left side of a test for membership in a nested query. -/
def lowerSubqueryField (projection : List Projection) : Attempt Term := do
  let inner ← subqueryType field projection
  let outer := field.declaredType
  match outer, inner with
  | some outer, some inner =>
      if !outer.compatible inner then
        .error (.unsupported (.subqueryType field.describe outer inner))
  | _, _ => .ok ()
  let valueType := (outer.or inner).getD .unknown
  field.rejectContainer "IN subquery" valueType
  field.read scope valueType.extraction

mutual

/-- The condition that a predicate stands for. A similarity search restricts the row set of its
alias elsewhere, and holds here. -/
def lower (dialect : Dialect) (scope : Scope) : Predicate Nested → Traced (Condition Statement)
  | .comparison field op value => .ofExcept (lowerComparison scope field op value)
  | .text field op pattern => .ofExcept (lowerText dialect scope field op pattern)
  | .nullCheck field op => .ofExcept (lowerNullCheck scope field op)
  | .between field least greatest => .ofExcept (lowerBetween scope field least greatest)
  | .array field op values => .ofExcept (lowerArray scope field op values)
  | .object field op pointer value =>
      .ofExcept (lowerObject scope field op pointer value)
  | .aggregate expression op value =>
      .ofExcept (lowerAggregate scope expression op value)
  | .and [] => pure (.constant true)
  | .and operands => do return .all (← lowerAll dialect scope operands)
  | .or [] => pure (.constant false)
  | .or operands => do return .any (← lowerAll dialect scope operands)
  | .not operand => do return .notAll [← lower dialect scope operand]
  | .subquery nested negated => do return .subquery (← nested.outcome) negated
  | .inSubquery field nested negated => do
      let term ← lowerSubqueryField scope field nested.projection
      return .inSubquery term (← nested.outcome) negated
  | .similarity _ => pure (.constant true)

def lowerAll (dialect : Dialect) (scope : Scope) : List (Predicate Nested) → Traced Conditions
  | [] => pure []
  | operand :: rest => do
      return (← lower dialect scope operand) :: (← lowerAll dialect scope rest)

end

end Predicate

end GraphSql
