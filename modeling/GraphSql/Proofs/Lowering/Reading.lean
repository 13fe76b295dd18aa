import GraphSql.Proofs.Lowering.Output

namespace GraphSql

open Field List Traced

variable {α : Type} {scope : Scope} {field : Field}

/-- The scope has the column that the field names. -/
def Field.ReadIn (scope : Scope) (field : Field) : Prop :=
  ∀ column, field.target = .ok (.column column) → ∃ term, scope.column field.aliasName column = .ok term

namespace Field

theorem readIn_of_whole (found : field.target = .ok .whole) : field.ReadIn scope := by
  intro column named
  rw [found] at named
  cases named

theorem readIn_of_property {pointer : Pointer} (found : field.target = .ok (.property pointer)) :
    field.ReadIn scope := by
  intro column named
  rw [found] at named
  cases named

/-- Whatever is made of the column of a field, the scope has it. -/
theorem readIn_of_column {column : Column} (found : field.target = .ok (.column column)) (next : Term → Attempt α) :
    Returns (scope.column field.aliasName column >>= next) fun _ => field.ReadIn scope := by
  cases served : scope.column field.aliasName column with
  | error error => trivial
  | ok term =>
    refine returns_all fun _ other named => ?_
    rw [found] at named
    cases named
    exact ⟨term, served⟩

/-- What is made of each target of a field needs its column, if it has one. -/
theorem readIn_of_resolve {next : Target → Attempt α} (named : ∀ column, field.target = .ok (.column column) →
      Returns (next (.column column)) fun _ => field.ReadIn scope) :
    Returns (field.resolve >>= next) fun _ => field.ReadIn scope := by
  unfold resolve
  cases found : field.target with
  | error fault => trivial
  | ok target =>
    cases target with
    | whole => exact returns_all fun _ => readIn_of_whole found
    | property pointer => exact returns_all fun _ => readIn_of_property found
    | column column => exact named column found

theorem readIn_of_read (extraction : Extraction) (next : Term → Attempt α) :
    Returns (field.read scope extraction >>= next) fun _ => field.ReadIn scope := by
  have read : Returns (field.read scope extraction) fun _ => field.ReadIn scope :=
    readIn_of_resolve fun column found => by simpa using readIn_of_column found pure
  rw [returns_bind]
  exact read.imp fun _ readIn => returns_all fun _ => readIn

/-- Only properties have an address, and they are in no column of their own. -/
theorem readIn_of_pointer (what : String) (next : Pointer → Attempt α) :
    Returns (field.propertyPointer what >>= next) fun _ => field.ReadIn scope := by
  have pointed : Returns (field.propertyPointer what) fun _ => field.ReadIn scope :=
    readIn_of_resolve fun column found => trivial
  rw [returns_bind]
  exact pointed.imp fun _ readIn => returns_all fun _ => readIn

end Field

theorem Aggregate.readIn_of_lower {aggregate : Aggregate} (next : Term → Attempt α) :
    Returns (aggregate.lower scope >>= next) fun _ => aggregate.field.ReadIn scope := by
  have read (extraction : Extraction) : Returns (aggregate.field.read scope extraction) fun _ =>
      aggregate.field.ReadIn scope := by
    simpa using readIn_of_read extraction pure
  have argument : Returns (aggregate.argument scope) fun _ => aggregate.field.ReadIn scope := by
    refine readIn_of_resolve fun column found => ?_
    cases aggregate.function with
    | count | countDistinct | sum | average => exact read _
    | least | greatest =>
      rw [returns_bind]
      exact returns_all fun _ => read _
  have lowered : Returns (aggregate.lower scope) fun _ => aggregate.field.ReadIn scope := by
    unfold lower
    split
    · rw [returns_bind]
      exact argument.imp fun _ readIn => returns_all fun _ => readIn
    · trivial
  rw [returns_bind]
  exact lowered.imp fun _ readIn => returns_all fun _ => readIn

namespace Predicate

theorem readIn_of_lowerComparison (op : Comparison) (value : Operand) :
    Returns (lowerComparison scope field op value) fun _ => field.ReadIn scope := by
  unfold lowerComparison
  rw [returns_bind]
  refine returns_all fun valueType => ?_
  rw [returns_bind]
  exact returns_all fun _ => readIn_of_read _ _

theorem readIn_of_lowerText (dialect : Dialect) (op : TextOperator) (pattern : Operand) :
    Returns (lowerText dialect scope field op pattern) fun _ => field.ReadIn scope := by
  rw [lowerText_eq, returns_bind]
  exact returns_all fun _ => readIn_of_read _ _

theorem readIn_of_lowerNullCheck (op : NullCheck) :
    Returns (lowerNullCheck scope field op) fun _ => field.ReadIn scope :=
  readIn_of_resolve fun _ found => readIn_of_column found _

theorem readIn_of_lowerBetween (least greatest : Operand) :
    Returns (lowerBetween scope field least greatest) fun _ => field.ReadIn scope := by
  unfold lowerBetween
  rw [returns_bind]
  refine returns_all fun valueType => ?_
  rw [returns_bind]
  exact returns_all fun _ => readIn_of_read _ _

theorem readIn_of_lowerSubqueryField (projections : List Projection) (next : Term → Attempt α) :
    Returns (lowerSubqueryField scope field projections >>= next) fun _ => field.ReadIn scope := by
  have typed (valueType : ValueType) : Returns
      (do field.rejectContainer "IN subquery" valueType; field.read scope valueType.extraction)
      fun _ => field.ReadIn scope := by
    rw [returns_bind]
    exact returns_all fun _ => by simpa using readIn_of_read valueType.extraction pure
  have lowered : Returns (lowerSubqueryField scope field projections) fun _ => field.ReadIn scope := by
    unfold lowerSubqueryField
    rw [returns_bind]
    refine returns_all fun inner => ?_
    dsimp only
    split
    · split
      · trivial
      · exact typed _
    · exact typed _
  rw [returns_bind]
  exact lowered.imp fun _ readIn => returns_all fun _ => readIn

theorem lowerAll_returns {dialect : Dialect} {operands : List (Predicate Nested)}
    {becomes : Predicate Nested → Condition Statement → Prop}
    (each : ∀ operand ∈ operands, Returns (lower dialect scope operand).result (becomes operand)) :
    Returns (lowerAll dialect scope operands).result fun conditions =>
      ∀ operand ∈ operands, ∃ condition ∈ conditions, becomes operand condition := by
  induction operands with
  | nil => simp [lowerAll]
  | cons operand rest ih =>
    rw [forall_mem_cons] at each
    simp only [lowerAll, result_bind, result_pure, returns_bind, forall_mem_cons]
    refine each.1.imp fun _ first => (ih each.2).imp fun _ others => ⟨⟨_, .head _, first⟩, ?_⟩
    intro other mem
    obtain ⟨condition, member, related⟩ := others other mem
    exact ⟨condition, .tail _ member, related⟩

section

variable {dialect : Dialect} {operands : List (Predicate Nested)} {shows : Predicate Nested → Prop}
variable (each : ∀ operand ∈ operands, Returns (lower dialect scope operand).result fun _ => shows operand)

include each

theorem lowerAll_shows : Returns (lowerAll dialect scope operands).result fun _ =>
    ∀ operand ∈ operands, shows operand := by
  apply (lowerAll_returns each).imp
  intro conditions shown operand mem
  obtain ⟨-, -, holds⟩ := shown operand mem
  exact holds

theorem lower_shows :
    Returns (lower dialect scope (.and operands)).result (fun _ => ∀ operand ∈ operands, shows operand) ∧
      Returns (lower dialect scope (.or operands)).result fun _ => ∀ operand ∈ operands, shows operand := by
  have parts := lowerAll_shows each
  cases operands with
  | nil => simp [lower]
  | cons operand rest =>
    simp only [lower, result_bind, result_pure, returns_bind]
    exact ⟨parts.imp fun _ shown => shown, parts.imp fun _ shown => shown⟩

end

theorem readIn_of_lower (dialect : Dialect) (predicate : Predicate Nested)
    (without : predicate.containsSimilarity = false) :
    Returns (lower dialect scope predicate).result fun _ => ∀ field ∈ predicate.fields, field.ReadIn scope := by
  induction predicate with
  | comparison field op value => simpa [lower, fields] using readIn_of_lowerComparison op value
  | text field op pattern => simpa [lower, fields] using readIn_of_lowerText dialect op pattern
  | nullCheck field op => simpa [lower, fields] using readIn_of_lowerNullCheck op
  | between field least greatest => simpa [lower, fields] using readIn_of_lowerBetween least greatest
  | array field op values =>
    have pointed : Returns (lowerArray scope field op values) fun _ => field.ReadIn scope :=
      Field.readIn_of_pointer _ _
    simpa [lower, fields] using pointed
  | object field op pointer value =>
    have pointed : Returns (lowerObject scope field op pointer value) fun _ =>
      field.ReadIn scope := Field.readIn_of_pointer _ _
    simpa [lower, fields] using pointed
  | aggregate expression op value =>
    simp only [lower, result_ofExcept, fields, forall_mem_singleton]
    unfold lowerAggregate
    split
    · trivial
    · exact Aggregate.readIn_of_lower _
  | and operands ih | or operands ih =>
    have parts : ∀ operand ∈ operands, operand.containsSimilarity = false := by
      simpa [containsSimilarity, anyPart, isSimilarity, anyPartOf_eq_any] using without
    obtain ⟨ofAnd, ofOr⟩ := lower_shows fun operand mem => ih operand mem (parts operand mem)
    simp only [fields, fieldsOf_eq_flatMap, forall_mem_flatMap]
    assumption
  | not operand ih =>
    have inside : operand.containsSimilarity = false := by
      simpa [containsSimilarity, anyPart, isSimilarity] using without
    simp only [lower, result_bind, result_pure, returns_bind, fields]
    exact (ih inside).imp fun _ readIn => readIn
  | subquery query negated => exact returns_all fun _ => by simp [fields]
  | inSubquery field query negated =>
    simp only [lower, result_bind, fields, forall_mem_singleton]
    exact readIn_of_lowerSubqueryField query.projection _
  | similarity => simp [containsSimilarity, anyPart, isSimilarity] at without

end Predicate

namespace Output

variable {output : Output}

theorem readIn_of_fieldColumns (name : String) :
    Returns (output.fieldColumns name field) fun _ => field.ReadIn output.scope :=
  readIn_of_resolve fun _ _ => readIn_of_read _ _

/-- Projections are read, unless they are computed before. -/
theorem readIn_of_uncomputed (projections : List Projection) (index : Nat) :
    Returns (output.projectionsFrom index projections) fun _ =>
      ∀ entry ∈ projections.zipIdx index, output.computed entry.2 = none →
        entry.1.source.fieldOf.ReadIn output.scope := by
  have one (projection : Projection) (index : Nat) : Returns (output.projectionColumns index projection) fun _ =>
        output.computed index = none → projection.source.fieldOf.ReadIn output.scope := by
    unfold projectionColumns
    cases output.computed index with
    | some term => rintro ⟨⟩
    | none =>
      cases projection.source with
      | field target => exact (readIn_of_fieldColumns _).imp fun _ readIn _ => readIn
      | aggregate expression => exact (Aggregate.readIn_of_lower _).imp fun _ readIn _ => readIn
  rw [projectionsFrom_eq, returns_bind]
  exact (returns_mapM fun entry _ => one entry.1 entry.2).imp fun _ => forall_mem_of_forall₂

theorem readIn_of_selectedColumns (selected : List SelectedField) :
    Returns (output.selectedColumns selected) fun _ => ∀ chosen ∈ selected, chosen.field.ReadIn output.scope := by
  rw [selectedColumns_eq, returns_bind]
  exact (returns_mapM fun chosen _ => readIn_of_fieldColumns chosen.name).imp fun _ => forall_mem_of_forall₂

theorem readIn_of_groupBy (grouping : List Field) :
    Returns (output.groupBy grouping) fun _ => ∀ field ∈ grouping, field.ReadIn output.scope := by
  have one (field : Field) : Returns (output.groupKeys field) fun _ => field.ReadIn output.scope :=
    readIn_of_resolve fun _ _ => readIn_of_read _ _
  rw [groupBy_eq, returns_bind]
  exact (returns_mapM fun field _ => one field).imp fun _ => forall_mem_of_forall₂

theorem readIn_of_sortKeys (orders : List Order) : Returns (output.sortKeys orders) fun _ =>
      ∀ order ∈ orders, order.field.ReadIn output.scope := by
  have one (order : Order) : Returns (output.sortKey order) fun _ => order.field.ReadIn output.scope := by
    refine readIn_of_resolve fun _ _ => ?_
    cases order.field.declaredType with
    | none => exact readIn_of_read _ _
    | some valueType =>
      rw [returns_bind]
      exact returns_all fun _ => readIn_of_read _ _
  rw [sortKeys_eq]
  exact (returns_mapM fun order _ => one order).imp fun _ => forall_mem_of_forall₂

end Output

end GraphSql
