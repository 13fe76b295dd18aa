import GraphSql.Proofs.Editing
import GraphSql.Proofs.Lowering.Output

namespace GraphSql

open Block Field List Output Spelling VectorSearch

variable {σ τ : Type} {spelling : Spelling} {nested : σ → τ}

def VectorSearch.respell (spelling : Spelling) (vector : VectorSearch) : VectorSearch :=
  ⟨vector.pointer, vector.search.respell spelling⟩

@[simp] theorem VectorSearch.aliasName_respell (vector : VectorSearch) :
    (vector.respell spelling).aliasName = vector.aliasName := spelling.aliasName_write _

/-- The decisions with the search written in another way. -/
def Decisions.respell (spelling : Spelling) (picks : Decisions) : Decisions :=
  { picks with vector := picks.vector.map (VectorSearch.respell spelling) }

theorem Decisions.edited_ofSpelling (picks : Decisions) :
    picks.edited (.ofSpelling spelling nested) id = picks.respell spelling := by
  have vectors : VectorSearch.edited (.ofSpelling spelling nested) = VectorSearch.respell spelling := by
    funext vector
    simp [VectorSearch.edited, VectorSearch.respell, Similarity.edited, Similarity.revise,
      Similarity.respell, Edit.ofSpelling, Revision.plain]
  simp [edited, respell, vectors]

namespace Block

variable {block : Block σ}

@[simp] theorem start_respell : (block.respell spelling nested).start = block.start := rfl

theorem clauses_respell : (block.respell spelling nested).groupBy = block.groupBy.map spelling.write ∧
      (block.respell spelling nested).having = block.having.map (Predicate.respell spelling nested) ∧
      (block.respell spelling nested).orderBy = block.orderBy.map (Order.respell spelling) :=
  ⟨rfl, rfl, rfl⟩

theorem placedAt_respell (placements : List (Option String)) (place : Option String) :
    (block.respell spelling nested).placedAt placements place =
      (block.placedAt placements place).map (Predicate.respell spelling nested) := by
  rw [← edited_ofSpelling, placedAt_edited, funext (Predicate.edited_ofSpelling spelling nested)]

variable (opts : Options)

theorem analyzeChain_respell : (block.respell spelling nested).analyzeChain opts =
      (fun (picks, plan) => (picks.respell spelling, plan)) <$> block.analyzeChain opts := by
  rw [← edited_ofSpelling, analyzeChain_edited id rfl ?_ (Revision.keepsFixed_plain nested)]
  · simp only [Decisions.edited_ofSpelling]
  · rw [edited_ofSpelling]
    rfl

theorem analyzeWalk_respell : (block.respell spelling nested).analyzeWalk opts =
      (fun (picks, plan) => (picks.respell spelling, plan)) <$> block.analyzeWalk opts := by
  rw [← edited_ofSpelling, analyzeWalk_edited id rfl]
  · simp only [Decisions.edited_ofSpelling]
  · rw [edited_ofSpelling]
    rfl

end Block

variable (spelling)

/-- The nested query with its columns written in another way. -/
def Nested.respell (nested : Nested) : Nested :=
  { nested with projection := nested.projection.map (Projection.respell spelling) }

section Fields

variable (scope : Scope) (field : Field)

@[simp] theorem Spelling.read_write (extraction : Extraction) :
    (spelling.write field).read scope extraction = field.read scope extraction := by
  simp [Field.read]

@[simp] theorem Spelling.readTyped_write : (spelling.write field).readTyped scope = field.readTyped scope := by
  simp [readTyped]

@[simp] theorem Spelling.propertyPointer_write (what : String) :
    (spelling.write field).propertyPointer what = field.propertyPointer what := by
  simp [propertyPointer]

@[simp] theorem Spelling.comparisonType_write (op : String) (asList : Bool) (operands : List Operand) :
    (spelling.write field).comparisonType op asList operands = field.comparisonType op asList operands := by
  simp [comparisonType]

@[simp] theorem Spelling.elementType_write (operands : List Operand) :
    (spelling.write field).elementType operands = field.elementType operands := by
  simp [elementType]

variable (aggregate : Aggregate)

@[simp] theorem Aggregate.argument_respell :
    (aggregate.respell spelling).argument scope = aggregate.argument scope := by
  simp [argument, respell]

@[simp] theorem Aggregate.lower_respell : (aggregate.respell spelling).lower scope = aggregate.lower scope := by
  simp only [lower, argument_respell]
  simp [respell]

end Fields

namespace Predicate

variable (scope : Scope) (field : Field)

theorem lowerComparison_write (op : Comparison) (value : Operand) :
    lowerComparison scope (spelling.write field) op value = lowerComparison scope field op value := by
  have values : membershipValues (spelling.write field) op value = membershipValues field op value := by
    cases value with
    | literal value valueType => cases value <;> rfl
    | list => rfl
    | parameter => simp [membershipValues]
  have nulls : lowerNullComparison (spelling.write field) op = lowerNullComparison field op := by
    funext left
    cases op <;> simp [lowerNullComparison]
  simp [lowerComparison, values, nulls]

theorem lowerText_write (dialect : Dialect) (op : TextOperator) (pattern : Operand) :
    lowerText dialect scope (spelling.write field) op pattern = lowerText dialect scope field op pattern := by
  simp [lowerText]

theorem lowerNullCheck_write (op : NullCheck) :
    lowerNullCheck scope (spelling.write field) op = lowerNullCheck scope field op := by
  simp [lowerNullCheck]

theorem lowerBetween_write (least greatest : Operand) :
    lowerBetween scope (spelling.write field) least greatest = lowerBetween scope field least greatest := by
  simp [lowerBetween]

theorem lowerArray_write (op : ArrayOperator) (values : List Operand) :
    lowerArray scope (spelling.write field) op values = lowerArray scope field op values := by
  have first : firstValue (spelling.write field) op values = firstValue field op values := by
    cases values <;> simp [firstValue]
  cases op <;> simp [lowerArray, lowerLength, first]

theorem lowerObject_write (op : ObjectOperator) (pointer : Pointer) (value : Option Operand) :
    lowerObject scope (spelling.write field) op pointer value = lowerObject scope field op pointer value := by
  have needed : neededValue (spelling.write field) op value = neededValue field op value := by
    cases value <;> simp [neededValue]
  cases op <;> simp [lowerObject, needed]

theorem lowerAggregate_respell (expression : Aggregate) (op : Comparison) (value : Operand) :
    lowerAggregate scope (expression.respell spelling) op value = lowerAggregate scope expression op value := by
  simp [lowerAggregate]

variable (projections : List Projection)

theorem subqueryType_respell : subqueryType (spelling.write field) (projections.map (Projection.respell spelling)) =
      subqueryType field projections := by
  cases projections with
  | nil => simp [subqueryType]
  | cons projection rest =>
    cases rest with
    | nil =>
      obtain ⟨name, source⟩ := projection
      cases source <;>
        simp [subqueryType, Projection.respell, ProjectionSource.respell, Aggregate.respell]
    | cons second others => simp [subqueryType]

theorem lowerSubqueryField_respell :
    lowerSubqueryField scope (spelling.write field) (projections.map (Projection.respell spelling)) =
      lowerSubqueryField scope field projections := by
  simp [lowerSubqueryField, subqueryType_respell]

theorem lowerAll_map {dialect : Dialect} {f : Predicate Nested → Predicate Nested} {operands : List (Predicate Nested)}
    (same : ∀ operand ∈ operands, (f operand).lower dialect scope = operand.lower dialect scope) :
    lowerAll dialect scope (operands.map f) = lowerAll dialect scope operands := by
  induction operands with
  | nil => rfl
  | cons operand rest ih =>
    rw [forall_mem_cons] at same
    simp [lowerAll, same.1, ih same.2]

@[simp] theorem lower_respell (dialect : Dialect) (predicate : Predicate Nested) :
    (predicate.respell spelling (Nested.respell spelling)).lower dialect scope = predicate.lower dialect scope := by
  induction predicate with
  | and operands ih | or operands ih =>
    have conditions := lowerAll_map scope ih
    cases operands with
    | nil => rfl
    | cons =>
      rw [map_cons] at conditions
      simp [respell, respellAll_eq_map, lower, conditions]
  | not operand ih => simp [respell, lower, ih]
  | _ =>
    simp [respell, lower, lowerComparison_write, lowerText_write, lowerNullCheck_write,
      lowerBetween_write, lowerArray_write, lowerObject_write, lowerAggregate_respell,
      Nested.respell, lowerSubqueryField_respell]

end Predicate

namespace Output

variable (output : Output)

theorem fieldColumns_write (name : String) (field : Field) :
    output.fieldColumns name (spelling.write field) = output.fieldColumns name field := by
  simp [fieldColumns]

theorem projectionColumns_respell (index : Nat) (projection : Projection) :
    output.projectionColumns index (projection.respell spelling) = output.projectionColumns index projection := by
  obtain ⟨name, source⟩ := projection
  cases source <;>
    simp [projectionColumns, Projection.respell, ProjectionSource.respell, fieldColumns_write]

variable {block : Block σ}

theorem columns_respell : output.columns (block.respell spelling nested) = output.columns block := by
  unfold columns
  cases projected : block.projection with
  | nil =>
    cases found : block.selected <;>
      simp [Block.respell, projected, found, selectedColumns_eq, mapM_map, Function.comp_def,
        SelectedField.respell, fieldColumns_write]
  | cons projection rest =>
    simp [Block.respell, projected, projectionsFrom_eq, zipIdx_map, mapM_map, Function.comp_def,
      projectionColumns_respell]

theorem groupBy_write (fields : List Field) : output.groupBy (fields.map spelling.write) = output.groupBy fields := by
  induction fields with
  | nil => rfl
  | cons field rest ih => simp [groupBy, groupKeys, ih]

theorem having_respell (dialect : Dialect) (predicate : Option (Predicate Nested)) :
    output.having dialect (predicate.map (Predicate.respell spelling (Nested.respell spelling))) =
      output.having dialect predicate := by
  cases predicate <;> simp [having]

variable (orders : List Order)

theorem sortKeys_respell : output.sortKeys (orders.map (Order.respell spelling)) = output.sortKeys orders := by
  induction orders with
  | nil => rfl
  | cons order rest ih => simp [sortKeys, sortKey, Order.respell, ih]

theorem orderBy_respell : output.orderBy (orders.map (Order.respell spelling)) = output.orderBy orders := by
  simp [orderBy, sortKeys_respell]

end Output

/-- The block with all its fields written in another way, also those of nested queries. -/
abbrev Block.respelled (spelling : Spelling) (block : Block Nested) : Block Nested :=
  block.respell spelling (Nested.respell spelling)

theorem Decisions.vectorParts_respell (picks : Decisions) (aliasName : String) :
    (picks.respell spelling).vectorParts aliasName = picks.vectorParts aliasName := by
  have parts : ∀ vector : VectorSearch, (vector.respell spelling).parts = vector.parts := by
    intro vector
    simp only [VectorSearch.parts, aliasName_respell]
    rfl
  cases found : picks.vector with
  | none => simp [vectorParts, respell, found]
  | some vector => simp [vectorParts, respell, found, parts]

variable {block : Block Nested} {env : Setting} {picks : Decisions}

namespace Block

theorem lowerPlaced_respell (dialect : Dialect) (scope : Scope) (place : Option String) :
    (block.respelled spelling).lowerPlaced dialect (picks.respell spelling) scope place =
      block.lowerPlaced dialect picks scope place := by
  unfold lowerPlaced
  rw [placedAt_respell, Predicate.lowerAll_map scope fun _ _ => Predicate.lower_respell ..]
  rfl

theorem startRowSet_respell : (block.respelled spelling).startRowSet env
        (picks.respell spelling) = block.startRowSet env picks := by
  simp only [startRowSet, start_respell, lowerPlaced_respell, Decisions.vectorParts_respell]
  rfl

theorem hopConditions_respell (dialect : Dialect) (hop : Traversal) : (block.respelled spelling).hopConditions dialect
        (picks.respell spelling) hop = block.hopConditions dialect picks hop := by
  simp only [hopConditions, lowerPlaced_respell]
  rfl

theorem hopRowSet_respell (hop : Traversal) (later : List Traversal) : (block.respelled spelling).hopRowSet env
        (picks.respell spelling) hop later = block.hopRowSet env picks hop later := by
  simp only [hopRowSet, hopConditions_respell, Decisions.vectorParts_respell]
  rfl

theorem countRowSet_respell (hop : Traversal) (counts : Counts) : (block.respelled spelling).countRowSet env
        (picks.respell spelling) hop counts = block.countRowSet env picks hop counts := by
  simp only [countRowSet, hopConditions_respell]
  rfl

theorem hopRowSets_respell (hops : List Traversal) : (block.respelled spelling).hopRowSets env
        (picks.respell spelling) hops = block.hopRowSets env picks hops := by
  have counted : (picks.respell spelling).counts = picks.counts := rfl
  induction hops with
  | nil => rfl
  | cons hop later ih => simp [hopRowSets, counted, countRowSet_respell, hopRowSet_respell, ih]

theorem chainSelect_respell : (block.respelled spelling).chainSelect env
        (picks.respell spelling) = block.chainSelect env picks := by
  have nearest : ((picks.respell spelling).vector.map fun vector =>
      (vector.aliasName, vector.search.count)) =
        picks.vector.map fun vector => (vector.aliasName, vector.search.count) := by
    cases found : picks.vector with
    | none => simp [Decisions.respell, found]
    | some vector =>
      simp only [Decisions.respell, found, Option.map_some, aliasName_respell]
      rfl
  simp only [chainSelect, nearest, clauses_respell, columns_respell, lowerPlaced_respell,
    groupBy_write, having_respell, orderBy_respell]
  rfl

theorem chainLevel_respell : (block.respelled spelling).chainLevel env
        (picks.respell spelling) = block.chainLevel env picks := by
  have hops : (block.respelled spelling).traversals = block.traversals := rfl
  simp [chainLevel, hops, startRowSet_respell, hopRowSets_respell, chainSelect_respell]

end Block

namespace Walk

variable (walk : Walk)

theorem startMember_respell : walk.startMember (block.respelled spelling) env
        (picks.respell spelling) = walk.startMember block env picks := by
  simp only [startMember, start_respell, lowerPlaced_respell]
  rfl

theorem stepMember_respell (hop : Traversal) (guards : Conditions) :
    walk.stepMember (block.respelled spelling) env (picks.respell spelling) hop guards =
      walk.stepMember block env picks hop guards := by
  simp only [stepMember, hopConditions_respell]
  rfl

theorem stepMembers_respell (steps : List (Traversal × Conditions)) : walk.stepMembers (block.respelled spelling) env
        (picks.respell spelling) steps = walk.stepMembers block env picks steps := by
  induction steps with
  | nil => rfl
  | cons step rest ih => simp [stepMembers, stepMember_respell, ih]

theorem select_respell : walk.select (block.respelled spelling) env
        (picks.respell spelling) = walk.select block env picks := by
  simp only [select, clauses_respell, columns_respell, lowerPlaced_respell,
    groupBy_write, having_respell, orderBy_respell]
  rfl

end Walk

theorem Block.walkLevel_respell : (block.respelled spelling).walkLevel env
        (picks.respell spelling) = block.walkLevel env picks := by
  have walks : (block.respelled spelling).walk = block.walk := rfl
  simp [walkLevel, walks, Walk.startMember_respell, Walk.stepMembers_respell, Walk.select_respell]

end GraphSql
