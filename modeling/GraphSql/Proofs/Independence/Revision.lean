import GraphSql.Analysis.Validation
import GraphSql.Proofs.Nested

namespace GraphSql

open List

variable {σ τ υ : Type}

/-- What is put in the place of values, kinds and nested queries. -/
structure Revision (σ τ : Type) where
  operand : Operand → Operand
  embedding : List Float32 → List Float32
  score : Float → Float
  kind : String → String
  graph : String → String
  timestamp : String → String
  nested : σ → τ

/-- Only the nested queries are replaced. -/
def Revision.plain (nested : σ → τ) : Revision σ τ where
  operand := id
  embedding := id
  score := id
  kind := id
  graph := id
  timestamp := id
  nested

/-- One replacement after the other. -/
def Revision.andThen (first : Revision σ τ) (second : Revision τ υ) : Revision σ υ where
  operand operand := second.operand (first.operand operand)
  embedding embedding := second.embedding (first.embedding embedding)
  score score := second.score (first.score score)
  kind kind := second.kind (first.kind kind)
  graph graphId := second.graph (first.graph graphId)
  timestamp timestamp := second.timestamp (first.timestamp timestamp)
  nested query := second.nested (first.nested query)

variable (revision : Revision σ τ)

def Similarity.revise (search : Similarity) : Similarity where
  field := search.field
  embedding := revision.embedding search.embedding
  metric := search.metric
  count := search.count
  minScore := search.minScore.map revision.score

namespace Predicate

mutual

def revise (revision : Revision σ τ) : Predicate σ → Predicate τ
  | .comparison field op value => .comparison field op (revision.operand value)
  | .text field op pattern => .text field op (revision.operand pattern)
  | .nullCheck field op => .nullCheck field op
  | .between field lower upper => .between field (revision.operand lower) (revision.operand upper)
  | .array field op values => .array field op (values.map revision.operand)
  | .object field op pointer value => .object field op pointer (value.map revision.operand)
  | .aggregate expression op value => .aggregate expression op (revision.operand value)
  | .and operands => .and (reviseAll revision operands)
  | .or operands => .or (reviseAll revision operands)
  | .not operand => .not (revise revision operand)
  | .subquery query negated => .subquery (revision.nested query) negated
  | .inSubquery field query negated => .inSubquery field (revision.nested query) negated
  | .similarity search => .similarity (search.revise revision)

def reviseAll (revision : Revision σ τ) : List (Predicate σ) → List (Predicate τ)
  | [] => []
  | operand :: rest => revise revision operand :: reviseAll revision rest

end

end Predicate

def Filter.revise (revision : Revision σ τ) (filter : Filter σ) : Filter τ where
  aliasName := filter.aliasName
  element := filter.element
  predicate := filter.predicate.revise revision

def Start.revise (start : Start) : Start := { start with kinds := start.kinds.map revision.kind }

def Traversal.revise (hop : Traversal) : Traversal :=
  { hop with
    edgeKinds := hop.edgeKinds.map revision.kind
    inverseEdgeKinds := hop.inverseEdgeKinds.map revision.kind
    nodeKinds := hop.nodeKinds.map revision.kind }

def TemporalMode.revise : TemporalMode → TemporalMode
  | .asOf timestamp => .asOf (revision.timestamp timestamp)
  | .current => .current
  | .includeEnded => .includeEnded
  | .includeTombstones => .includeTombstones

def Block.revise (revision : Revision σ τ) (block : Block σ) : Block τ where
  graphId := block.graphId.map revision.graph
  start := block.start.revise revision
  traversals := block.traversals.map (Traversal.revise revision)
  filters := block.filters.map (Filter.revise revision)
  projection := block.projection
  groupBy := block.groupBy
  having := block.having.map (Predicate.revise revision)
  orderBy := block.orderBy
  limit := block.limit
  offset := block.offset
  temporal := block.temporal.revise revision
  selected := block.selected

namespace Predicate

theorem reviseAll_eq_map (revision : Revision σ τ) (operands : List (Predicate σ)) :
    reviseAll revision operands = operands.map (revise revision) := by
  induction operands with
  | nil => rfl
  | cons operand rest ih => simp [reviseAll, ih]

theorem revise_plain (f : σ → τ) (predicate : Predicate σ) : predicate.revise (.plain f) = predicate.map f := by
  induction predicate with
  | and operands ih | or operands ih =>
    rw [revise, map, reviseAll_eq_map, mapAll_eq_map]
    exact congrArg _ (map_congr_left ih)
  | not operand ih => simpa [revise, map] using ih
  | _ => simp [revise, map, Revision.plain, Similarity.revise]

theorem revise_plain_id (predicate : Predicate σ) : predicate.revise (.plain id) = predicate := by
  induction predicate with
  | and operands ih | or operands ih =>
    rw [revise, reviseAll_eq_map]
    exact congrArg _ ((map_congr_left ih).trans (map_id _))
  | not operand ih => rw [revise, ih]
  | _ => simp [revise, Revision.plain, Similarity.revise]

end Predicate

@[simp] theorem Traversal.revise_plain (f : σ → τ) (hop : Traversal) : hop.revise (.plain f) = hop := by
  simp [revise, Revision.plain]

theorem Block.revise_plain (f : σ → τ) (block : Block σ) : block.revise (.plain f) = block.map f := by
  have filters : Filter.revise (.plain f) = Filter.map f := by
    funext filter
    simp [Filter.revise, Filter.map, Predicate.revise_plain]
  have having : Predicate.revise (.plain f) = Predicate.map f := by
    funext predicate
    exact Predicate.revise_plain f predicate
  have hops : Traversal.revise (.plain f) = id := by
    funext hop
    exact hop.revise_plain f
  have temporal : block.temporal.revise (.plain f) = block.temporal := by cases block.temporal <;> rfl
  have start : block.start.revise (.plain f) = block.start := by simp [Start.revise, Revision.plain]
  have graphId : block.graphId.map (Revision.plain f).graph = block.graphId := Option.map_id'
  rw [revise, filters, having, hops, temporal, start, graphId, map_id]
  rfl

section AndThen

variable (first : Revision σ τ) (second : Revision τ υ)

theorem Predicate.revise_revise (predicate : Predicate σ) :
    (predicate.revise first).revise second = predicate.revise (first.andThen second) := by
  induction predicate with
  | and operands ih | or operands ih =>
    simp only [revise, reviseAll_eq_map, map_map]
    exact congrArg _ (map_congr_left ih)
  | not operand ih => simpa [revise] using ih
  | _ => simp [revise, Similarity.revise, Revision.andThen, Function.comp_def]

theorem Block.revise_revise (block : Block σ) :
    (block.revise first).revise second = block.revise (first.andThen second) := by
  have temporal : (block.temporal.revise first).revise second = block.temporal.revise (first.andThen second) := by
    cases block.temporal <;> rfl
  simp [revise, temporal, Filter.revise, Predicate.revise_revise, Start.revise, Traversal.revise,
    Revision.andThen, Function.comp_def]

end AndThen

end GraphSql
