import GraphSql.Lowering.Predicate
import GraphSql.Proofs.Nested

namespace GraphSql

open Field List

variable {σ τ υ : Type}

/-- Another way to write fields. A field that denotes nothing stays as it is. -/
structure Spelling where
  write : Field → Field
  aliasName_write : ∀ field, (write field).aliasName = field.aliasName
  valueType_write : ∀ field, (write field).valueType = field.valueType
  target_write : ∀ field, (write field).target = field.target
  write_of_fault : ∀ field fault, field.target = .error fault → write field = field

attribute [simp] Spelling.aliasName_write Spelling.valueType_write Spelling.target_write

namespace Spelling

/-- Fields stay as they are. -/
def same : Spelling where
  write := id
  aliasName_write _ := rfl
  valueType_write _ := rfl
  target_write _ := rfl
  write_of_fault _ _ _ := rfl

variable (spelling : Spelling) (field : Field)

@[simp] theorem denotes_write (target : Target) : (spelling.write field).denotes target = field.denotes target := by
  simp [denotes]

@[simp] theorem declaredType_write : (spelling.write field).declaredType = field.declaredType := by
  simp [declaredType]

/-- Messages name a field by what it denotes. -/
@[simp] theorem describe_write : (spelling.write field).describe = field.describe := by
  cases found : field.target with
  | ok target => cases target <;> simp [describe, found]
  | error fault => rw [spelling.write_of_fault field fault found]

@[simp] theorem resolve_write : (spelling.write field).resolve = field.resolve := by simp [resolve]

@[simp] theorem rejectContainer_write (op : String) (valueType : ValueType) :
    (spelling.write field).rejectContainer op valueType = field.rejectContainer op valueType := by
  simp [rejectContainer]

end Spelling

variable (spelling : Spelling)

def Aggregate.respell (aggregate : Aggregate) : Aggregate := { aggregate with field := spelling.write aggregate.field }

def Similarity.respell (search : Similarity) : Similarity := { search with field := spelling.write search.field }

def ProjectionSource.respell (spelling : Spelling) : ProjectionSource → ProjectionSource
  | .field target => .field (spelling.write target)
  | .aggregate expression => .aggregate (expression.respell spelling)

def Projection.respell (spelling : Spelling) (projection : Projection) : Projection :=
  { projection with source := projection.source.respell spelling }

def Order.respell (order : Order) : Order := { order with field := spelling.write order.field }

def SelectedField.respell (selected : SelectedField) : SelectedField :=
  { selected with field := spelling.write selected.field }

namespace Predicate

mutual

/-- The predicate with its fields written in another way and its nested queries replaced. -/
def respell (spelling : Spelling) (nested : σ → τ) : Predicate σ → Predicate τ
  | .comparison field op value => .comparison (spelling.write field) op value
  | .text field op pattern => .text (spelling.write field) op pattern
  | .nullCheck field op => .nullCheck (spelling.write field) op
  | .between field lower upper => .between (spelling.write field) lower upper
  | .array field op values => .array (spelling.write field) op values
  | .object field op pointer value => .object (spelling.write field) op pointer value
  | .aggregate expression op value => .aggregate (expression.respell spelling) op value
  | .and operands => .and (respellAll spelling nested operands)
  | .or operands => .or (respellAll spelling nested operands)
  | .not operand => .not (respell spelling nested operand)
  | .subquery query negated => .subquery (nested query) negated
  | .inSubquery field query negated => .inSubquery (spelling.write field) (nested query) negated
  | .similarity search => .similarity (search.respell spelling)

def respellAll (spelling : Spelling) (nested : σ → τ) : List (Predicate σ) → List (Predicate τ)
  | [] => []
  | operand :: rest => respell spelling nested operand :: respellAll spelling nested rest

end

end Predicate

def Filter.respell (spelling : Spelling) (nested : σ → τ) (filter : Filter σ) : Filter τ where
  aliasName := filter.aliasName
  element := filter.element
  predicate := filter.predicate.respell spelling nested

/-- The block with its fields written in another way and its nested queries replaced. -/
def Block.respell (spelling : Spelling) (nested : σ → τ) (block : Block σ) : Block τ where
  graphId := block.graphId
  start := block.start
  traversals := block.traversals
  filters := block.filters.map (Filter.respell spelling nested)
  projection := block.projection.map (Projection.respell spelling)
  groupBy := block.groupBy.map spelling.write
  having := block.having.map (Predicate.respell spelling nested)
  orderBy := block.orderBy.map (Order.respell spelling)
  limit := block.limit
  offset := block.offset
  temporal := block.temporal
  selected := block.selected.map (List.map (SelectedField.respell spelling))

section Nested

variable (spelling : Spelling) (nested : σ → τ)

theorem Predicate.respellAll_eq_map (operands : List (Predicate σ)) :
    respellAll spelling nested operands = operands.map (respell spelling nested) := by
  induction operands with
  | nil => rfl
  | cons operand rest ih => simp [respellAll, ih]

theorem Predicate.respell_same (predicate : Predicate σ) : predicate.respell .same id = predicate := by
  induction predicate with
  | and operands ih | or operands ih =>
    rw [respell, respellAll_eq_map]
    exact congrArg _ ((map_congr_left ih).trans (map_id _))
  | not operand ih => rw [respell, ih]
  | _ => rfl

theorem Block.respell_same (block : Block σ) : block.respell .same id = block := by
  have filters : Filter.respell .same id = (id : Filter σ → Filter σ) := by
    funext filter
    simp [Filter.respell, Predicate.respell_same]
  have having : Predicate.respell .same id = (id : Predicate σ → Predicate σ) := by
    funext predicate
    exact predicate.respell_same
  have projection : Projection.respell .same = id := by
    funext entry
    obtain ⟨name, source⟩ := entry
    cases source <;> rfl
  have writes : Spelling.same.write = id := rfl
  have orders : Order.respell .same = id := rfl
  have selected : SelectedField.respell .same = id := rfl
  simp [respell, filters, having, projection, writes, orders, selected]

theorem Predicate.map_respell (f : τ → υ) (predicate : Predicate σ) : (predicate.respell spelling nested).map f =
      predicate.respell spelling fun query => f (nested query) := by
  induction predicate with
  | and operands ih | or operands ih =>
    simp only [respell, map, respellAll_eq_map, mapAll_eq_map, map_map]
    exact congrArg _ (map_congr_left ih)
  | not operand ih => simpa [respell, map] using ih
  | _ => simp [respell, map]

theorem Predicate.respell_map (f : σ → τ) (nested : τ → υ) (predicate : Predicate σ) :
    (predicate.map f).respell spelling nested = predicate.respell spelling fun query => nested (f query) := by
  induction predicate with
  | and operands ih | or operands ih =>
    simp only [respell, map, respellAll_eq_map, mapAll_eq_map, map_map]
    exact congrArg _ (map_congr_left ih)
  | not operand ih => simpa [respell, map] using ih
  | _ => simp [respell, map]

theorem Block.map_respell (f : τ → υ) (block : Block σ) :
    (block.respell spelling nested).map f = block.respell spelling fun query => f (nested query) := by
  simp only [respell, map, map_map, Option.map_map, Function.comp_def, Filter.respell,
    Filter.map, Predicate.map_respell]
  rfl

theorem Block.respell_map (f : σ → τ) (nested : τ → υ) (block : Block σ) :
    (block.map f).respell spelling nested = block.respell spelling fun query => nested (f query) := by
  simp only [respell, map, map_map, Option.map_map, Function.comp_def, Filter.respell,
    Filter.map, Predicate.respell_map]
  rfl

theorem Predicate.respell_congr {first second : σ → τ} (predicate : Predicate σ)
    (same : ∀ query ∈ predicate.nested, first query = second query) :
    predicate.respell spelling first = predicate.respell spelling second := by
  induction predicate with
  | and operands ih | or operands ih =>
    rw [nested, nestedOf_eq_flatMap, forall_mem_flatMap] at same
    simp only [respell, respellAll_eq_map]
    exact congrArg _ (map_congr_left fun operand mem => ih operand mem (same operand mem))
  | not operand ih => simpa [respell] using ih same
  | subquery | inSubquery => simp [respell, same _ (mem_singleton_self _)]
  | _ => simp [respell]

theorem Block.respell_congr {first second : σ → τ} {block : Block σ}
    (same : ∀ query ∈ block.nested, first query = second query) :
    block.respell spelling first = block.respell spelling second := by
  rw [Block.nested, forall_mem_append] at same
  have filters : block.filters.map (Filter.respell spelling first) =
      block.filters.map (Filter.respell spelling second) := by
    apply map_congr_left
    intro filter mem
    have predicates := filter.predicate.respell_congr spelling fun query inner =>
      same.1 query (mem_flatMap.mpr ⟨filter, mem, inner⟩)
    simp [Filter.respell, predicates]
  have having : block.having.map (Predicate.respell spelling first) =
      block.having.map (Predicate.respell spelling second) := by
    cases found : block.having with
    | none => rfl
    | some predicate =>
      have predicates := predicate.respell_congr spelling fun query inner => same.2 query (by simpa [found] using inner)
      simp [predicates]
  simp [Block.respell, filters, having]

end Nested

end GraphSql
