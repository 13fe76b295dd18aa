import GraphSql.Compile
import GraphSql.Query.SetOperation

namespace GraphSql

namespace Block

variable {σ : Type}

/-- The predicates of all filters and of the groups. -/
def allPredicates (block : Block σ) : List (Predicate σ) := block.filters.map Filter.predicate ++ block.having.toList

/-- What keeps the row sets of a member from moving to the front of a compound. -/
def unhoistable (block : Block σ) : List Unhoistable :=
  (if block.traversals.isEmpty then [] else [.traversals]) ++
    (if block.allPredicates.any Predicate.containsSubquery then [.subqueries] else []) ++
    (if block.allPredicates.any Predicate.containsSimilarity then [.similarity] else []) ++
    (if block.groupBy.isEmpty && block.having.isNone then [] else [.grouping]) ++
    if block.orderBy.isEmpty && block.limit.isNone && block.offset.isNone then [] else [.clauses]

end Block

/-- One side of a set operation: a member, or a compound that may continue the chain. -/
inductive Branch where
  | member (member : Member)
  | compound (compound : Compound)

namespace Branch

/-- The branch as one member. -/
def asMember (strategy : CompoundStrategy) : Branch → Member
  | .member single => single
  | .compound body =>
      match strategy with
      | .parenthesized => .grouped body
      | .hoisted => .wrapped body

/-- The branch as the beginning of a chain. Where members are not parenthesized, a compound without
order and bounds is continued, because operators apply from left to right. -/
def asChain (strategy : CompoundStrategy) (branch : Branch) : Member × List (SetOperator × Member) :=
  match strategy, branch with
  | .hoisted, .compound (.mk first rest [] none) => (first, rest)
  | strategy, branch => (branch.asMember strategy, [])

end Branch

/-- What has become of a part of a set operation. -/
structure Combined (α : Type) where
  body : α
  plan : Plan
  /-- The row sets that stand before the whole compound. -/
  rowSets : List (RowSet Statement)

/-- The tag of the row sets of a leaf. -/
def leafTag (strategy : CompoundStrategy) (index : Nat) : String :=
  match strategy with
  | .hoisted => s!"s{index}_"
  | .parenthesized => ""

/-- A leaf is a query on its own graph, or else on the graph of the whole. -/
def Query.compileLeaf (opts : Options) (graphId : String) (index : Nat) (query : Query) :
    Traced (Combined Branch) := do
  let strategy := opts.dialect.capabilities.compound
  let (level, plan) ← (query.nested opts).compile
    { opts, graphId := query.block.graphId.getD graphId, tag := leafTag strategy index }
  match strategy with
  | .hoisted => return ⟨.member (.select level.select), plan, level.rowSets⟩
  | .parenthesized => return ⟨.member (.statement (.mk level)), plan, []⟩

/-- The output column that an order names by its field. -/
def orderColumn (projections : List Projection) (order : Order) : Attempt SortKey := do
  let wanted ← order.field.resolve
  let found := projections.find? fun projection =>
    match projection.source with
    | .field target => target.aliasName == order.field.aliasName && target.denotes wanted
    | .aggregate _ => false
  match found with
  | some projection => return ⟨.output projection.name, order.direction, order.nulls⟩
  | none =>
      .error (.unsupported (.compoundOrderField order.field.describe (projections.map Projection.name)))

/-- The order of a compound, in terms of the columns of its leftmost leaf. -/
def orderColumns (projections : List Projection) : List Order → Attempt (List SortKey)
  | [] => .ok []
  | orders =>
      if projections.isEmpty then .error (.unsupported .compoundOrder)
      else orders.mapM (orderColumn projections)

/-- The plan of two combined inputs. -/
def combinedPlan (op : SetOperator) (left right : Plan) (orderBy : List Order) (bounds : Option Bounds) : Plan :=
  let combined : Plan := .node (.combine op) [left, right]
  let sorted := if orderBy.isEmpty then combined else combined.under (.sort orderBy.length)
  match bounds with
  | none => sorted
  | some bounds => sorted.under (.limitOffset bounds.limit bounds.offset)

mutual

/-- One side of a set operation whose first leaf has the given position. -/
def SetOperand.combine (opts : Options) (graphId : String) (index : Nat) : SetOperand → Traced (Combined Branch)
  | .query query => query.compileLeaf opts graphId index
  | .operation operation => do
      let combined ← SetOperation.combine opts graphId index operation
      return ⟨.compound combined.body, combined.plan, combined.rowSets⟩

def SetOperation.combine (opts : Options) (graphId : String) (index : Nat) :
    SetOperation → Traced (Combined Compound)
  | ⟨op, left, right, orderBy, limit, offset⟩ => do
      let strategy := opts.dialect.capabilities.compound
      let first ← SetOperand.combine opts graphId index left
      let second ← SetOperand.combine opts graphId (index + left.leaves.length) right
      let keys ← orderColumns left.leftmost.block.projection orderBy
      let bounds := if limit.isSome || offset.isSome then some ⟨limit, offset⟩ else none
      let (head, rest) := first.body.asChain strategy
      let body : Compound := .mk head (rest ++ [(op, second.body.asMember strategy)]) keys bounds
      let plan := combinedPlan op first.plan second.plan orderBy bounds
      body.check plan
      return ⟨body, plan, first.rowSets ++ second.rowSets⟩

end

namespace SetOperation

variable (operation : SetOperation)

/-- The numbers of columns that leaves project, each once and in order. -/
def widths : List Nat :=
  let lengths := operation.leaves.map (·.block.projection.length)
  ((lengths.filter (0 < ·)).eraseDups).mergeSort

/-- Leaves that project columns project equally many. -/
def checkWidths : Attempt Unit :=
  let widths := operation.widths
  if 1 < widths.length then .error (.unsupported (.compoundWidths widths)) else .ok ()

/-- What keeps the leaves from being hoisted, each with the number of its leaf. -/
def hoistingProblems : List (Unhoistable × Nat) :=
  operation.leaves.zipIdx.flatMap fun (leaf, index) => leaf.block.unhoistable.map (·, index + 1)

def checkHoisting (dialect : Dialect) : Attempt Unit :=
  match dialect.capabilities.compound with
  | .parenthesized => .ok ()
  | .hoisted =>
      let problems := operation.hoistingProblems
      if problems.isEmpty then .ok () else .error (.unsupported (.hoisting dialect problems))

/-- The statement of a set operation for a graph, and its plan. -/
def statement (opts : Options) (graphId : String) (operation : SetOperation) :
    Traced (CompoundStatement × Plan) := do
  .logged (.combining operation.operator operation.leaves.length opts.dialect.capabilities.compound)
  operation.checkWidths
  operation.checkHoisting opts.dialect
  let combined ← operation.combine opts graphId 0
  return (⟨combined.rowSets, combined.body⟩, combined.plan)

def compile (opts : Options) (graphId : String) (operation : SetOperation) : Traced CompiledQuery := do
  let (statement, plan) ← operation.statement opts graphId
  CompiledQuery.finish opts (statement.print opts.dialect opts.schema) plan

end SetOperation

end GraphSql
