import GraphSql.Analysis.Planning
import GraphSql.Analysis.Visibility
import GraphSql.Traced

namespace GraphSql

/-- What the analysis has decided about the statement of a query. -/
structure Decisions where
  /-- Where each filter is evaluated. -/
  placements : List (Option String)
  vector : Option VectorSearch
  /-- The point in time at which rows are visible. -/
  now : Option Term
  /-- The columns that are carried for an alias. -/
  carried : String → List Column
  /-- Each row set hands on all columns of the one before it. -/
  collapse : Bool
  /-- The bound of the row sets in the middle of a chain. -/
  pushdown : Option UInt64
  counts : Option Counts

namespace Block

variable {σ : Type}

variable (block : Block σ) (opts : Options)

def chainDecisions (vector : Option VectorSearch) : Decisions where
  placements := block.placements
  vector
  now := block.temporal.now opts
  carried := if block.isPruned then block.neededColumns block.placements else block.everyColumn
  collapse := block.isCollapsible
  pushdown := block.pushdown block.placements vector
  counts := block.counts block.placements vector

/-- The decisions for a hop of variable length, where nothing is shortened. -/
def walkDecisions (vector : Option VectorSearch) : Decisions where
  placements := block.placements
  vector
  now := block.temporal.now opts
  carried := block.everyColumn
  collapse := false
  pushdown := none
  counts := none

def enterRoute (route : Route) : Traced Unit := do
  .logged (.routeChosen route)
  .logged (.stagesListed route.stages)

def enterStage (stage : Stage) : Traced Unit := .logged (.stageEntered stage)

/-- The two stages that every route begins with. -/
def analyzeReferences (dialect : Dialect) : Traced (Option VectorSearch) := do
  enterStage .validation
  block.validate
  enterStage .similarity
  let vector ← block.findSimilarity dialect
  if let some vector := vector then
    .logged (.similarityFound vector.aliasName vector.search.metric vector.search.count)
  return vector

def analyzeChain : Traced (Decisions × Plan) := do
  enterRoute .chain
  let vector ← block.analyzeReferences opts.dialect
  let picks := block.chainDecisions opts vector
  enterStage .visibility
  enterStage .pruning
  if block.isPruned then .logged (.pruned block.aliases.length)
  enterStage .collapse
  if picks.collapse then .logged (.collapsed block.traversals.length)
  enterStage .pushdown
  if let (some limit, some pushed) := (block.limit, picks.pushdown) then
    .logged (.limitPushed limit pushed)
  enterStage .counting
  if let some counts := picks.counts then
    .logged (.counted counts.nodeAlias counts.columns.length)
  enterStage .chainPlan
  return (picks, block.chainPlan picks.placements vector picks.counts)

def analyzeWalk : Traced (Decisions × Plan) := do
  enterRoute .walk
  let vector ← block.analyzeReferences opts.dialect
  enterStage .depthRange
  block.checkWalk vector.isSome
  enterStage .visibility
  enterStage .walkPlan
  let plan ← block.walkPlan block.placements
  return (block.walkDecisions opts vector, plan)

end Block

end GraphSql
