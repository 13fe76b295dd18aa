import GraphSql.Lowering.Predicate
import GraphSql.Proofs.Binding
import GraphSql.Proofs.Independence.Revision
import GraphSql.Proofs.Reference

namespace GraphSql

open Field List Predicate Traced

variable {field : Field}

/-- The columns in which a field is looked up; an alias as a whole is known by its id. -/
def Field.readColumns (field : Field) : List Column :=
  match field.target with
  | .ok .whole => [.id]
  | .ok (.column column) => [column]
  | .ok (.property _) => [.props]
  | .error _ => []

theorem Field.rejectContainer_ensures (field : Field) (op : String) (valueType : ValueType) :
    Ensures (field.rejectContainer op valueType) fun _ => True := by
  unfold rejectContainer
  split <;> simp

namespace Operand

theorem term_ensures (transform : Transform) (operand : Operand) :
    Ensures (operand.term transform) fun term => term.references = [] := by
  cases operand with
  | literal value valueType =>
    simp only [term]
    split <;> simp
  | list values valueType => simp [term]
  | parameter name valueType => simp [term, Term.references]

theorem elements_ensures (operand : Operand) :
    Ensures operand.elements fun terms => ∀ term ∈ terms, term.references = [] := by
  unfold elements
  split
  · simp
  · simp
  · rw [ensures_mapOk]
    apply (term_ensures .identity _).imp
    intro term empty
    simpa using empty

theorem type_ensures (operand : Operand) (asList : Bool) : Ensures (operand.type asList) fun _ => True := by
  have literals (known : Option ValueType) (values : List Json) : Ensures (literalType known values) fun _ => True := by
    induction values generalizing known with
    | nil => simp [literalType]
    | cons value rest ih =>
      unfold literalType
      split
      · exact ih _
      · exact ih _
      · split
        · exact ih _
        · simp
  unfold type
  split
  · simp
  · exact literals _ _

end Operand

theorem typeEvidence_ensures (mixed : ValueType → ValueType → Unsupported) (asList : Bool)
    (known : Option ValueType) (operands : List Operand) :
    Ensures (typeEvidence mixed asList known operands) fun _ => True := by
  induction operands generalizing known with
  | nil => simp [typeEvidence]
  | cons operand rest ih =>
    unfold typeEvidence
    split
    · simp
    · rw [ensures_bind]
      apply (operand.type_ensures asList).imp
      intro found _
      split
      · split
        · exact ih _
        · simp
      · exact ih _
      · exact ih _

theorem Field.comparisonType_ensures (field : Field) (op : String) (asList : Bool) (operands : List Operand) :
    Ensures (field.comparisonType op asList operands) fun _ => True := by
  unfold comparisonType
  rw [ensures_bind]
  refine Ensures.imp (ensures_forM fun operand _ => ?_) fun _ _ => ?_
  · cases operand.containerType asList with
    | some container => exact field.rejectContainer_ensures _ _
    | none => simp
  · rw [ensures_bind]
    apply (typeEvidence_ensures _ _ _ _).imp
    intro evidence _
    cases evidence <;> simp

theorem Field.elementType_ensures (field : Field) (operands : List Operand) :
    Ensures (field.elementType operands) fun _ => True := by
  unfold elementType
  rw [ensures_bind]
  apply (typeEvidence_ensures _ _ _ _).imp
  intro evidence _
  cases evidence <;> simp

/-- Comparing with this operand asks whether a value is there. -/
def Operand.isNull : Operand → Bool
  | .literal .null _ => true
  | _ => false

/-- The form of a condition that tests one term, with operands or without. -/
inductive Condition.Form where
  | compare (comparator : Comparator)
  | isNull (negated : Bool)
  | isIn (negated : Bool)
  | between
  | like
  | ilike
  | arrayContains (pointer : Pointer) (elementType : ValueType)
  | arrayContainsAll (pointer : Pointer) (elementType : ValueType)
  | arrayContainsAny (pointer : Pointer) (elementType : ValueType)
  | hasPath (pointer : Pointer)
  | pathIsNull (pointer : Pointer) (negated : Bool)

/-- The condition of a form. With too many operands or too few there is nothing to test. -/
def Condition.Form.fill {σ : Type} : Form → Term → List Term → Condition σ
  | .compare comparator, term, [value] => .compare term comparator value
  | .isNull negated, term, [] => .isNull term negated
  | .isIn negated, term, values => .isIn term values negated
  | .between, term, [least, greatest] => .between term least greatest
  | .like, term, [pattern] => .like term pattern
  | .ilike, term, [pattern] => .ilike term pattern
  | .arrayContains pointer elementType, term, [value] => .arrayContains term pointer elementType value
  | .arrayContainsAll pointer elementType, term, values => .arrayContainsAll term pointer elementType values
  | .arrayContainsAny pointer elementType, term, values => .arrayContainsAny term pointer elementType values
  | .hasPath pointer, term, [] => .hasPath term pointer
  | .pathIsNull pointer negated, term, [] => .pathIsNull term pointer negated
  | _, _, _ => .constant true

/-- Only a pattern of the caller minds the case of letters. -/
def TextOperator.form (op : TextOperator) : Condition.Form := if op = .like then .like else .ilike

namespace Predicate

theorem lowerComparison_eq (scope : Scope) (field : Field) (op : Comparison) (value : Operand) :
    lowerComparison scope field op value = (do
      let valueType ← field.comparisonType op.keyword op.isMembership [value]
      field.rejectContainer op.keyword valueType
      let left ← field.read scope valueType.extraction
      match op.comparator? with
      | none => return lowerMembership left (← membershipValues field op value) (op == .notIn)
      | some comparator =>
        if value.isNull then lowerNullComparison field op left
        else return .compare left comparator (← value.term .identity)) := by
  rcases value with ⟨_ | _ | _ | _ | _ | _, _⟩ | _ | _ <;> rfl

theorem lowerText_eq (dialect : Dialect) (scope : Scope) (field : Field) (op : TextOperator) (pattern : Operand) :
    lowerText dialect scope field op pattern = (do
      field.valueType.forM (field.rejectContainer "string operator")
      let text ← field.read scope .text
      let pattern ← pattern.term (patternTransform dialect op)
      return op.form.fill text [pattern]) := by
  unfold lowerText
  cases field.valueType <;> cases op <;> rfl

theorem subqueryType_ensures (field : Field) (projections : List Projection) :
    Ensures (subqueryType field projections) fun _ => True := by
  unfold subqueryType
  split
  · split
    · rw [ensures_bind]
      apply (resolve_ensures _).imp
      intro target _
      cases target <;> simp
    · simp
  · simp

end Predicate

variable {compare : Comparer} {base value : Term → Term → Prop}
variable {statement : Statement → Statement → Prop}
variable {condition : Condition Statement → Condition Statement → Prop} {scope other : Scope}

/-- Wherever the field is looked up, both scopes give terms that compare. -/
def Field.Compares (compare : Comparer) (base : Term → Term → Prop) (scope other : Scope) (field : Field) : Prop :=
  ∀ column ∈ field.readColumns, compare base (scope.column field.aliasName column) (other.column field.aliasName column)

/-- Operands of one type that become terms which compare. -/
structure Operand.Compares (compare : Comparer) (value : Term → Term → Prop) (first second : Operand) : Prop where
  explicitType : second.explicitType = first.explicitType
  type : ∀ asList, second.type asList = first.type asList
  containerType : ∀ asList, second.containerType asList = first.containerType asList
  isNull : second.isNull = first.isNull
  term : compare value (first.term .identity) (second.term .identity)
  elements : compare (List.Forall₂ value) first.elements second.elements

/-- A comparison of conditions by the terms that they test and by their operands. -/
structure Simulation (compare : Comparer) (base value : Term → Term → Prop)
    (condition : Condition Statement → Condition Statement → Prop) : Prop
    extends Sequential compare where
  extract {first second : Term} (pointer : Pointer) (extraction : Extraction) :
    base first second → base (.extract first pointer extraction) (.extract second pointer extraction)
  aggregate {first second : Term} (function : AggregateFunction) :
    base first second → base (.aggregate function first) (.aggregate function second)
  arrayLength {first second : Term} (pointer : Pointer) :
    base first second → base (.arrayLength first pointer) (.arrayLength second pointer)
  orZero {first second : Term} : base first second → base (.orZero first) (.orZero second)
  zero : value (.integer 0) (.integer 0)
  constant (truth : Bool) : condition (.constant truth) (.constant truth)
  fill {first second : Term} {values others : List Term} (form : Condition.Form) :
    base first second → List.Forall₂ value values others → condition (form.fill first values) (form.fill second others)

section Operands

variable {operands others : List Operand}
variable (each : List.Forall₂ (Operand.Compares compare value) operands others)
include each

theorem typeEvidence_compares (mixed : ValueType → ValueType → Unsupported) (asList : Bool) (known : Option ValueType) :
    typeEvidence mixed asList known others = typeEvidence mixed asList known operands := by
  induction each generalizing known with
  | nil => rfl
  | cons head tail ih => simp only [typeEvidence, head.explicitType, head.type, ih]

theorem forM_compares {check : Operand → Attempt Unit}
    (same : ∀ operand other, operand.Compares compare value other → check other = check operand) :
    others.forM check = operands.forM check := by
  induction each with
  | nil => rfl
  | cons head tail ih =>
    simp only [forM_eq_forM, forM_cons] at ih ⊢
    rw [same _ _ head, ih]

theorem Field.comparisonType_compares (op : String) (asList : Bool) :
    field.comparisonType op asList others = field.comparisonType op asList operands := by
  unfold comparisonType
  rw [typeEvidence_compares each, forM_compares each]
  intro operand other compares
  rw [compares.containerType]

theorem Field.elementType_compares : field.elementType others = field.elementType operands := by
  simp only [elementType, typeEvidence_compares each]

end Operands

namespace Simulation

variable (sim : Simulation compare base value condition)
include sim

section Fields

variable (fields : field.Compares compare base scope other)
include fields

theorem read (extraction : Extraction) : compare base (field.read scope extraction) (field.read other extraction) := by
  refine sim.same field.resolve_ensures fun target found => ?_
  cases target with
  | whole => exact sim.unsupported _
  | column column => exact fields column (by simp [readColumns, found])
  | property pointer =>
    refine sim.bind (fields .props (by simp [readColumns, found])) ?_
    exact fun _ _ same => sim.ok (sim.extract pointer extraction same)

theorem readTyped : compare base (field.readTyped scope) (field.readTyped other) := sim.read fields _

theorem document {α β : Type} {related : α → β → Prop} (what : String)
    {next : Pointer → Term → Attempt α} {after : Pointer → Term → Attempt β}
    (each : ∀ pointer document source, base document source →
      compare related (next pointer document) (after pointer source)) :
    compare related
      (do let pointer ← field.propertyPointer what
          let document ← scope.column field.aliasName .props
          next pointer document)
      (do let pointer ← field.propertyPointer what
          let document ← other.column field.aliasName .props
          after pointer document) := by
  have pointed : Ensures (field.propertyPointer what) fun _ => .props ∈ field.readColumns := by
    unfold propertyPointer
    rw [ensures_bind]
    apply field.resolve_ensures.imp
    intro target found
    cases target <;> simp [readColumns, found]
  refine sim.same pointed fun pointer mem => ?_
  exact sim.bind (fields .props mem) fun document source => each pointer document source

end Fields

section Aggregates

variable {aggregate : Aggregate} (fields : aggregate.field.Compares compare base scope other)
include fields

theorem argument : compare base (aggregate.argument scope) (aggregate.argument other) := by
  refine sim.same aggregate.field.resolve_ensures fun target found => ?_
  have whole (same : target = .whole) : compare base (scope.column aggregate.field.aliasName .id)
      (other.column aggregate.field.aliasName .id) :=
    fields .id (by simp [readColumns, found, same])
  have read := sim.read fields
  have typed : compare base
      (do aggregate.field.rejectContainer "min/max" (aggregate.field.declaredType.getD .unknown)
          aggregate.field.readTyped scope)
      (do aggregate.field.rejectContainer "min/max" (aggregate.field.declaredType.getD .unknown)
          aggregate.field.readTyped other) :=
    sim.same (aggregate.field.rejectContainer_ensures _ _) fun _ _ => sim.readTyped fields
  cases aggregate.function <;> cases target <;> first
    | exact whole rfl
    | exact sim.unsupported _
    | exact read _
    | exact typed

theorem lower (aggregates : scope.aggregates = other.aggregates) :
    compare base (aggregate.lower scope) (aggregate.lower other) := by
  unfold Aggregate.lower
  rw [aggregates]
  split
  · refine sim.bind (sim.argument fields) fun _ _ same => ?_
    exact sim.ok (sim.aggregate aggregate.function same)
  · exact sim.unsupported _

end Aggregates

section Leaves

variable {operand another : Operand} {operands others : List Operand}

theorem compares {first second : Term} (same : base first second) (comparator : Comparator)
    (operands : operand.Compares compare value another) :
    compare condition
      (do return .compare first comparator (← operand.term .identity))
      (do return .compare second comparator (← another.term .identity)) := by
  refine sim.bind operands.term fun _ _ values => ?_
  exact sim.ok (sim.fill (.compare comparator) same (.cons values .nil))

theorem firstValue (each : List.Forall₂ (Operand.Compares compare value) operands others) (op : ArrayOperator) :
    compare (Operand.Compares compare value) (firstValue field op operands) (firstValue field op others) := by
  cases each with
  | nil => exact sim.unsupported _
  | cons head tail => exact sim.ok head

theorem allElements (each : List.Forall₂ (Operand.Compares compare value) operands others) :
    compare (List.Forall₂ value) (allElements operands) (allElements others) := by
  induction each with
  | nil => exact sim.ok .nil
  | cons head tail ih =>
    refine sim.bind head.elements fun _ _ elements => ?_
    exact sim.bind ih fun _ _ further => sim.ok (rel_append elements further)

theorem neededValue {operand another : Option Operand}
    (each : Option.Rel (Operand.Compares compare value) operand another)
    (op : ObjectOperator) :
    compare (Operand.Compares compare value) (neededValue field op operand) (neededValue field op another) := by
  cases each with
  | none => exact sim.unsupported _
  | some values => exact sim.ok values

theorem lowerAggregate {aggregate : Aggregate} (fields : aggregate.field.Compares compare base scope other)
    (aggregates : scope.aggregates = other.aggregates) (op : Comparison)
    (operands : operand.Compares compare value another) :
    compare condition (lowerAggregate scope aggregate op operand) (lowerAggregate other aggregate op another) := by
  unfold Predicate.lowerAggregate
  split
  · exact sim.unsupported _
  · refine sim.bind (sim.lower fields aggregates) fun _ _ same => ?_
    exact sim.compares same _ operands

variable (fields : field.Compares compare base scope other)
include fields

theorem lowerComparison {op : Comparison} (operands : operand.Compares compare value another)
    (sets : op.isMembership = true → compare (List.Forall₂ fun first second => value (.value first) (.value second))
      (membershipValues field op operand) (membershipValues field op another)) :
    compare condition (lowerComparison scope field op operand) (lowerComparison other field op another) := by
  have membership {first second : Term} (same : base first second) {list another : List Json}
      (each : List.Forall₂ (fun first second => value (.value first) (.value second)) list another)
      (negated : Bool) : condition (lowerMembership first list negated) (lowerMembership second another negated) := by
    unfold lowerMembership
    cases each with
    | nil => exact sim.constant negated
    | cons head tail =>
      refine sim.fill (.isIn negated) same (.cons head ?_)
      exact forall₂_map_left_iff.mpr (forall₂_map_right_iff.mpr tail)
  rw [lowerComparison_eq, lowerComparison_eq, comparisonType_compares (.cons operands .nil), operands.isNull]
  refine sim.same (field.comparisonType_ensures _ _ _) fun valueType _ => ?_
  refine sim.same (field.rejectContainer_ensures _ _) fun _ _ => ?_
  refine sim.bind (sim.read fields _) fun left right same => ?_
  have compared (comparator : Comparator) := sim.compares same comparator operands
  have isNull (negated : Bool) := sim.ok (sim.fill (.isNull negated) same .nil)
  cases op with
  | isIn | notIn => exact sim.bind (sets rfl) fun _ _ each => sim.ok (membership same each _)
  | equal | notEqual =>
    cases operand.isNull with
    | true => exact isNull _
    | false => exact compared _
  | greater | greaterOrEqual | less | lessOrEqual =>
    cases operand.isNull with
    | true => exact sim.unsupported _
    | false => exact compared _

theorem lowerText {dialect : Dialect} {op : TextOperator}
    (patterns : compare value (operand.term (patternTransform dialect op))
      (another.term (patternTransform dialect op))) :
    compare condition (lowerText dialect scope field op operand) (lowerText dialect other field op another) := by
  have typed : Ensures (field.valueType.forM (field.rejectContainer "string operator")) fun _ => True := by
    cases field.valueType with
    | none => simp
    | some valueType => exact field.rejectContainer_ensures _ _
  rw [lowerText_eq, lowerText_eq]
  refine sim.same typed fun _ _ => ?_
  refine sim.bind (sim.read fields _) fun _ _ same => ?_
  refine sim.bind patterns fun _ _ values => ?_
  exact sim.ok (sim.fill op.form same (.cons values .nil))

theorem lowerNullCheck (op : NullCheck) :
    compare condition (lowerNullCheck scope field op) (lowerNullCheck other field op) := by
  refine sim.same field.resolve_ensures fun target found => ?_
  have mem : ∀ column ∈ field.readColumns, compare condition
      (do return .isNull (← scope.column field.aliasName column) (op == .isNotNull))
      (do return .isNull (← other.column field.aliasName column) (op == .isNotNull)) :=
    fun column mem => sim.bind (fields column mem) fun _ _ same =>
      sim.ok (sim.fill (.isNull _) same .nil)
  cases target with
  | whole => exact mem .id (by simp [readColumns, found])
  | column column => exact mem column (by simp [readColumns, found])
  | property pointer =>
    refine sim.bind (fields .props (by simp [readColumns, found])) ?_
    exact fun _ _ same => sim.ok (sim.fill (.pathIsNull pointer _) same .nil)

theorem lowerBetween {greatest upper : Operand} (least : operand.Compares compare value another)
    (most : greatest.Compares compare value upper) :
    compare condition (lowerBetween scope field operand greatest) (lowerBetween other field another upper) := by
  unfold Predicate.lowerBetween
  rw [comparisonType_compares (.cons least (.cons most .nil))]
  refine sim.same (field.comparisonType_ensures _ _ _) fun valueType _ => ?_
  refine sim.same (field.rejectContainer_ensures _ _) fun _ _ => ?_
  refine sim.bind (sim.read fields _) fun _ _ same => ?_
  refine sim.bind least.term fun _ _ first => ?_
  refine sim.bind most.term fun _ _ second => ?_
  exact sim.ok (sim.fill .between same (.cons first (.cons second .nil)))

theorem lowerArray (op : ArrayOperator) (each : List.Forall₂ (Operand.Compares compare value) operands others) :
    compare condition (lowerArray scope field op operands) (lowerArray other field op others) := by
  refine sim.document fields _ fun pointer document source same => ?_
  have length := sim.arrayLength pointer same
  have lengths (op : ArrayOperator) (comparator : Comparator) : compare condition
      (lowerLength field op operands (.arrayLength document pointer) comparator)
      (lowerLength field op others (.arrayLength source pointer) comparator) :=
    sim.bind (sim.firstValue each op) fun _ _ => sim.compares length comparator
  have elements (form : Condition.Form) (truth : Bool) : compare condition
      (do let elements ← Predicate.allElements operands
          if elements.isEmpty then return .constant truth else return form.fill document elements)
      (do let elements ← Predicate.allElements others
          if elements.isEmpty then return .constant truth else return form.fill source elements) := by
    refine sim.bind (sim.allElements each) fun _ _ elements => ?_
    cases elements with
    | nil => exact sim.ok (sim.constant truth)
    | cons head tail => exact sim.ok (sim.fill form same (.cons head tail))
  cases op with
  | isEmpty =>
    exact sim.ok (sim.fill (.compare .equal) (sim.orZero length) (.cons sim.zero .nil))
  | isNotEmpty => exact sim.ok (sim.fill (.compare .greater) length (.cons sim.zero .nil))
  | lengthEqual | lengthGreater | lengthGreaterOrEqual | lengthLess | lengthLessOrEqual => exact lengths _ _
  | contains =>
    refine sim.bind (sim.firstValue each .contains) fun _ _ operands => ?_
    rw [elementType_compares (.cons operands .nil)]
    refine sim.same (field.elementType_ensures _) fun elementType _ => ?_
    refine sim.bind operands.term fun _ _ values => ?_
    exact sim.ok (sim.fill (.arrayContains pointer elementType) same (.cons values .nil))
  | containsAll =>
    dsimp only
    rw [elementType_compares each]
    refine sim.same (field.elementType_ensures _) fun elementType _ => ?_
    exact elements (.arrayContainsAll pointer elementType) true
  | containsAny =>
    dsimp only
    rw [elementType_compares each]
    refine sim.same (field.elementType_ensures _) fun elementType _ => ?_
    exact elements (.arrayContainsAny pointer elementType) false

theorem lowerObject {operand another : Option Operand} (op : ObjectOperator)
    (pointer : Pointer) (each : Option.Rel (Operand.Compares compare value) operand another) :
    compare condition (lowerObject scope field op pointer operand) (lowerObject other field op pointer another) := by
  refine sim.document fields _ fun pointer document source same => ?_
  cases op with
  | hasPath => exact sim.ok (sim.fill (.hasPath _) same .nil)
  | pathIsNull | pathIsNotNull => exact sim.ok (sim.fill (.pathIsNull _ _) same .nil)
  | pathEquals =>
    refine sim.bind (sim.neededValue each .pathEquals) fun _ _ operands => ?_
    rw [operands.type]
    refine sim.same (Operand.type_ensures _ _) fun _ _ => ?_
    refine sim.same (field.rejectContainer_ensures _ _) fun _ _ => ?_
    exact sim.compares (sim.extract _ _ same) .equal operands
  | pathContains =>
    refine sim.bind (sim.neededValue each .pathContains) fun _ _ operands => ?_
    rw [operands.type]
    refine sim.same (Operand.type_ensures _ _) fun _ _ => ?_
    refine sim.bind operands.term fun _ _ values => ?_
    exact sim.ok (sim.fill (.arrayContains _ _) same (.cons values .nil))

theorem lowerSubqueryField (projections : List Projection) :
    compare base (lowerSubqueryField scope field projections) (lowerSubqueryField other field projections) := by
  have typed (valueType : ValueType) : compare base
      (do field.rejectContainer "IN subquery" valueType; field.read scope valueType.extraction)
      (do field.rejectContainer "IN subquery" valueType; field.read other valueType.extraction) :=
    sim.same (field.rejectContainer_ensures _ _) fun _ _ => sim.read fields _
  refine sim.same (subqueryType_ensures field projections) fun inner _ => ?_
  dsimp only
  split
  · split
    · exact sim.unsupported _
    · exact typed _
  · exact typed _

end Leaves

end Simulation

/-- Operands that compare as patterns and as sets, too. -/
structure Operand.ComparesFully (compare : Comparer) (value : Term → Term → Prop) (first second : Operand) : Prop
    extends Operand.Compares compare value first second where
  pattern : ∀ transform, compare value (first.term transform) (second.term transform)
  values : ∀ field op, compare
    (List.Forall₂ fun first second => value (.value first) (.value second))
    (membershipValues field op first)
    (membershipValues field op second)

theorem Operand.comparesFully_self (sequential : Sequential compare)
    (closed : ∀ term : Term, term.references = [] → value term term) (operand : Operand) :
    operand.ComparesFully compare value operand where
  explicitType := rfl
  type _ := rfl
  containerType _ := rfl
  isNull := rfl
  term := sequential.self ((operand.term_ensures _).imp closed)
  elements := sequential.self (operand.elements_ensures.imp fun _ empty =>
    forall₂_same.mpr fun term member => closed term (empty term member))
  pattern _ := sequential.self ((operand.term_ensures _).imp closed)
  values field op := by
    have mem : Ensures (membershipValues field op operand) fun _ => True := by
      unfold membershipValues
      split <;> simp
    exact sequential.self (mem.imp fun _ _ => forall₂_same.mpr fun value _ => closed (.value value) rfl)

/-- Nested queries with the same columns that become statements which compare. -/
structure Nested.Compares (compare : Comparer) (statement : Statement → Statement → Prop)
    (first second : Nested) : Prop where
  projection : first.projection = second.projection
  outcome : compare statement first.outcome.result second.outcome.result

/-- Conditions that join others or hold statements compare as these do. -/
structure FullSimulation (compare : Comparer) (base value : Term → Term → Prop)
    (statement : Statement → Statement → Prop)
    (condition : Condition Statement → Condition Statement → Prop) : Prop
    extends Simulation compare base value condition where
  all {conditions others : Conditions} :
    List.Forall₂ condition conditions others → condition (.all conditions) (.all others)
  any {conditions others : Conditions} :
    List.Forall₂ condition conditions others → condition (.any conditions) (.any others)
  notAll {first second : Condition Statement} : condition first second → condition (.notAll [first]) (.notAll [second])
  subquery {first second : Statement} (negated : Bool) :
    statement first second → condition (.subquery first negated) (.subquery second negated)
  inSubquery {term source : Term} {first second : Statement} (negated : Bool) :
    base term source → statement first second →
      condition (.inSubquery term first negated) (.inSubquery source second negated)

namespace FullSimulation

variable {ι : Type} (dialect : Dialect)
variable (sim : FullSimulation compare base value statement condition)
include sim

theorem lowerAll {entries : List ι} {first second : ι → Predicate Nested}
    (each : ∀ entry ∈ entries, compare condition ((first entry).lower dialect scope).result
      ((second entry).lower dialect other).result) :
    compare (List.Forall₂ condition) (Predicate.lowerAll dialect scope (entries.map first)).result
      (Predicate.lowerAll dialect other (entries.map second)).result := by
  induction entries with
  | nil => exact sim.ok .nil
  | cons entry rest ih =>
    rw [forall_mem_cons] at each
    simp only [map_cons, Predicate.lowerAll, result_bind, result_pure]
    refine sim.bind each.1 fun _ _ first => ?_
    exact sim.bind (ih each.2) fun _ _ others => sim.ok (.cons first others)

variable {left right : Revision ι Nested} (aggregates : scope.aggregates = other.aggregates)
variable (operands : ∀ operand, (left.operand operand).ComparesFully compare value (right.operand operand))
include aggregates operands

/-- Two revisions of a predicate become conditions that compare, if their operands do and if the
scopes and the nested queries do as far as the predicate uses them. -/
theorem lower (predicate : Predicate ι) (fields : ∀ field ∈ predicate.fields, field.Compares compare base scope other)
    (nested : ∀ query ∈ predicate.nested, (left.nested query).Compares compare statement (right.nested query)) :
    compare condition ((predicate.revise left).lower dialect scope).result
      ((predicate.revise right).lower dialect other).result := by
  induction predicate with
  | comparison field op operand =>
    exact sim.lowerComparison (fields field mem_cons_self)
      (operands operand).toCompares fun _ => (operands operand).values field op
  | text field op pattern =>
    exact sim.lowerText (fields field mem_cons_self) ((operands pattern).pattern _)
  | nullCheck field op => exact sim.lowerNullCheck (fields field mem_cons_self) op
  | between field least greatest =>
    exact sim.lowerBetween (fields field mem_cons_self) (operands least).toCompares
      (operands greatest).toCompares
  | array field op values =>
    refine sim.lowerArray (fields field mem_cons_self) op ?_
    rw [forall₂_map_left_iff, forall₂_map_right_iff, forall₂_same]
    exact fun operand _ => (operands operand).toCompares
  | object field op pointer value =>
    refine sim.lowerObject (fields field mem_cons_self) op pointer ?_
    cases value with
    | none => exact .none
    | some operand => exact .some (operands operand).toCompares
  | aggregate expression op operand =>
    exact sim.lowerAggregate (fields expression.field mem_cons_self) aggregates
      op (operands operand).toCompares
  | and entries ih | or entries ih =>
    rw [Predicate.fields, fieldsOf_eq_flatMap, forall_mem_flatMap] at fields
    rw [Predicate.nested, nestedOf_eq_flatMap, forall_mem_flatMap] at nested
    have conditions := sim.lowerAll dialect fun operand mem =>
      ih operand mem (fields operand mem) (nested operand mem)
    rw [revise, revise, reviseAll_eq_map, reviseAll_eq_map]
    cases entries with
    | nil => exact sim.ok (sim.constant _)
    | cons entry rest =>
      simp only [map_cons, Predicate.lower, result_bind, result_pure]
      refine sim.bind conditions fun _ _ each => sim.ok ?_
      first
      | exact sim.all each
      | exact sim.any each
  | not operand ih =>
    simp only [revise, Predicate.lower, result_bind, result_pure]
    refine sim.bind (ih fields nested) ?_
    exact fun _ _ inner => sim.ok (sim.notAll inner)
  | subquery query negated =>
    simp only [revise, Predicate.lower, result_bind, result_pure]
    refine sim.bind (nested query mem_cons_self).outcome fun _ _ inner => ?_
    exact sim.ok (sim.subquery negated inner)
  | inSubquery field query negated =>
    simp only [revise, Predicate.lower, result_bind, result_pure, (nested query mem_cons_self).projection]
    refine sim.bind (sim.lowerSubqueryField (fields field mem_cons_self) _) fun _ _ same => ?_
    refine sim.bind (nested query mem_cons_self).outcome fun _ _ inner => ?_
    exact sim.ok (sim.inSubquery negated same inner)
  | similarity search => exact sim.ok (sim.constant true)

section Same

variable (closed : ∀ term : Term, term.references = [] → value term term)
include closed

omit operands in
theorem lower_same (predicate : Predicate Nested)
    (fields : ∀ field ∈ predicate.fields, field.Compares compare base scope other)
    (nested : ∀ query ∈ predicate.nested, compare statement query.outcome.result query.outcome.result) :
    compare condition (predicate.lower dialect scope).result (predicate.lower dialect other).result := by
  have operands (operand : Operand) : operand.ComparesFully compare value operand :=
    operand.comparesFully_self sim.toSequential closed
  rw [← predicate.revise_plain_id]
  exact sim.lower dialect aggregates operands predicate fields fun query mem => ⟨rfl, nested query mem⟩

omit operands in
theorem lowerAll_same (operands : List (Predicate Nested))
    (fields : ∀ field ∈ fieldsOf operands, field.Compares compare base scope other)
    (nested : ∀ query ∈ nestedOf operands, compare statement query.outcome.result query.outcome.result) :
    compare (List.Forall₂ condition) (Predicate.lowerAll dialect scope operands).result
      (Predicate.lowerAll dialect other operands).result := by
  rw [fieldsOf_eq_flatMap, forall_mem_flatMap] at fields
  rw [nestedOf_eq_flatMap, forall_mem_flatMap] at nested
  rw [← map_id operands]
  exact sim.lowerAll dialect fun operand mem =>
    sim.lower_same dialect aggregates closed operand (fields operand mem) (nested operand mem)

end Same

end FullSimulation

end GraphSql
