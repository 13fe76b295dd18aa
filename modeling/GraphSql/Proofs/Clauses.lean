import GraphSql.Compile.Compound

namespace GraphSql

open PlanOperator

variable {input : Plan}

namespace Plan

theorem hasClause_under (test : PlanOperator → Bool) (input : Plan) (op : PlanOperator) :
    (input.under op).hasClause test = (test op || (op.isClause && input.hasClause test)) := rfl

/-- A plan whose outermost operator is part of the row source asks for no clause. -/
theorem hasClause_of_rows {test : PlanOperator → Bool}
    (clauses : ∀ op, op.isClause = false → test op = false) {plan : Plan}
    (rows : plan.op.isClause = false) : plan.hasClause test = false := by
  cases plan with
  | node op inputs =>
    have failed : test op = false := clauses op rows
    change op.isClause = false at rows
    cases inputs with
    | nil => exact failed
    | cons input others =>
      cases others with
      | nil => simp [hasClause, failed, rows]
      | cons => exact failed

/-- The four clauses that a plan asks for. -/
structure Asks (plan : Plan) (orderBy bounds groupBy having : Bool) : Prop where
  sort : plan.hasSort = orderBy
  limitOffset : plan.hasLimitOffset = bounds
  groupBy : plan.hasGroupBy = groupBy
  having : plan.hasHaving = having

theorem asks_of_rows {plan : Plan} (rows : plan.op.isClause = false) : plan.Asks false false false false := by
  refine ⟨hasClause_of_rows ?_ rows, hasClause_of_rows ?_ rows, hasClause_of_rows ?_ rows, hasClause_of_rows ?_ rows⟩
  · rintro (_ | _) <;> simp [isClause, isSort]
  · rintro (_ | _) <;> simp [isClause, isLimitOffset]
  · rintro (_ | _) <;> simp [isClause, isGroupBy]
  · rintro (_ | _) <;> simp [isClause, isHaving]

namespace Asks

variable {plan : Plan} {orderBy bounds groupBy having : Bool}

theorem sorted (asks : plan.Asks false bounds groupBy having) (isSorted : Bool) (keys : Nat) :
    (if isSorted then plan.under (.sort keys) else plan).Asks isSorted bounds groupBy having := by
  cases isSorted with
  | false => exact asks
  | true => exact ⟨rfl, asks.limitOffset, asks.groupBy, asks.having⟩

theorem bounded (asks : plan.Asks orderBy false groupBy having) (isBounded : Bool) (limit offset : Option UInt64) :
    (if isBounded then plan.under (.limitOffset limit offset) else plan).Asks orderBy isBounded groupBy having := by
  cases isBounded with
  | false => exact asks
  | true => exact ⟨asks.sort, rfl, asks.groupBy, asks.having⟩

theorem aggregated (asks : plan.Asks orderBy bounds false false) (keys functions : Nat) (onGroups : Bool) :
    (plan.under (.aggregate keys functions onGroups)).Asks orderBy bounds (0 < keys) onGroups where
  sort := asks.sort
  limitOffset := asks.limitOffset
  groupBy := by
    rw [hasGroupBy, hasClause_under, ← hasGroupBy, asks.groupBy]
    simp [isGroupBy]
  having := by
    rw [hasHaving, hasClause_under, ← hasHaving, asks.having]
    simp [isHaving]

theorem projected (asks : plan.Asks orderBy bounds groupBy having) (columns : Option Nat) :
    (plan.under (.project columns)).Asks orderBy bounds groupBy having :=
  ⟨asks.sort, asks.limitOffset, asks.groupBy, asks.having⟩

theorem checkClauses_eq_ok (asks : plan.Asks orderBy bounds groupBy having) :
    plan.checkClauses orderBy bounds groupBy having = .ok () := by
  have agrees (clause : String) (written : Bool) :
      plan.checkClause clause written written = .ok () := by cases written <;> rfl
  unfold checkClauses
  rw [asks.sort, asks.limitOffset, asks.groupBy, asks.having]
  simp only [agrees]
  rfl

end Asks

end Plan

/-- The four clauses that a SELECT has. -/
structure Select.Writes {σ : Type} (select : Select σ) (orderBy bounds groupBy having : Bool) : Prop where
  orderBy : (!select.orderBy.isEmpty) = orderBy
  bounds : select.bounds.isSome = bounds
  groupBy : (!select.groupBy.isEmpty) = groupBy
  having : select.having.isSome = having

theorem Select.Writes.check_eq_ok {σ : Type} {select : Select σ}
    {orderBy bounds groupBy having : Bool} (writes : select.Writes orderBy bounds groupBy having)
    {plan : Plan} (asks : plan.Asks orderBy bounds groupBy having) :
    select.check plan = .ok () := by
  rw [Select.check, writes.orderBy, writes.bounds, writes.groupBy, writes.having]
  exact asks.checkClauses_eq_ok

namespace Block

variable {σ : Type}

theorem ungrouped_spec {block : Block σ} (ungrouped : block.isGrouped = false) :
    block.groupBy.isEmpty = true ∧ block.having.isSome = false := by
  simp only [isGrouped, Bool.or_eq_false_iff, Bool.not_eq_false'] at ungrouped
  exact ungrouped.1

theorem rows_filtered (aliasName : String) (predicates : Nat) (rows : input.op.isClause = false) :
    (filtered aliasName predicates input).op.isClause = false := by
  unfold filtered
  split
  · exact rows
  · rfl

/-- The aggregation of a plan groups by what the query groups by. -/
theorem grouped_asks (block : Block σ) (aggregates : Bool) (rows : input.op.isClause = false) : Plan.Asks
      (if aggregates && block.isGrouped then
        input.under (.aggregate block.groupBy.length
          (block.projection.countP (·.source.isAggregate)) block.having.isSome)
      else input) false false
      (aggregates && !block.groupBy.isEmpty) (aggregates && block.having.isSome) := by
  have start := Plan.asks_of_rows rows
  cases aggregates with
  | false => exact start
  | true =>
    cases grouped : block.isGrouped with
    | false =>
      obtain ⟨empty, absent⟩ := ungrouped_spec grouped
      rw [empty, absent]
      exact start
    | true =>
      have nonempty : (!block.groupBy.isEmpty) = decide (0 < block.groupBy.length) := by cases block.groupBy <;> rfl
      rw [nonempty]
      exact start.aggregated _ _ _

/-- Above the row source, the plan asks for the clauses that the query asks for. -/
theorem finishPlan_asks (block : Block σ) (finalPredicates : Nat) (aggregates hasVector : Bool)
    (rows : input.op.isClause = false) :
    (block.finishPlan finalPredicates aggregates hasVector input).Asks (!block.orderBy.isEmpty || hasVector)
      (block.limit.isSome || block.offset.isSome || hasVector)
      (aggregates && !block.groupBy.isEmpty) (aggregates && block.having.isSome) := by
  have grouped := block.grouped_asks aggregates (rows_filtered "*" finalPredicates rows)
  exact ((grouped.sorted _ _).bounded _ _ _).projected _

variable (block : Block σ) (placements : List (Option String))

theorem rows_scanPlan (aliasName : String) (source : Element) :
    (block.scanPlan placements aliasName source).op.isClause = false :=
  rows_filtered _ _ rfl

theorem rows_joined (counts : Option Counts) (hops : List Traversal) (rows : input.op.isClause = false) :
    (hops.foldl (block.joinPlan placements counts) input).op.isClause = false := by
  induction hops generalizing input with
  | nil => exact rows
  | cons hop rest ih => exact ih rfl

theorem chainPlan_asks (vector : Option VectorSearch) (counts : Option Counts) :
    (block.chainPlan placements vector counts).Asks (!block.orderBy.isEmpty || vector.isSome)
      (block.limit.isSome || block.offset.isSome || vector.isSome)
      (counts.isNone && !block.groupBy.isEmpty) (counts.isNone && block.having.isSome) := by
  unfold chainPlan
  apply finishPlan_asks
  cases vector with
  | none => exact block.rows_joined placements counts _ (block.rows_scanPlan _ _ _)
  | some vector => rfl

end Block

/-- A compound asks for its own order and bounds; its members keep theirs to themselves. -/
theorem combinedPlan_asks (op : SetOperator) (left right : Plan) (orderBy : List Order) (bounds : Option Bounds) :
    (combinedPlan op left right orderBy bounds).Asks (!orderBy.isEmpty) bounds.isSome false
      false := by
  have combined : (Plan.node (.combine op) [left, right]).Asks false false false false := Plan.asks_of_rows rfl
  have sorted := combined.sorted (!orderBy.isEmpty) orderBy.length
  unfold combinedPlan
  cases bounds with
  | none => cases orderBy <;> exact sorted
  | some bounds => cases orderBy <;> exact sorted.bounded true bounds.limit bounds.offset

end GraphSql
