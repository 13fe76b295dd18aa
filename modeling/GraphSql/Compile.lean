import GraphSql.CompiledQuery
import GraphSql.Lowering.Chain
import GraphSql.Lowering.Walk
import GraphSql.Statement.Check

namespace GraphSql

namespace Block

variable (block : Block Nested) (env : Setting)

def compileChain : Traced (Level Statement × Plan) := do
  let (picks, plan) ← block.analyzeChain env.opts
  return (← block.chainLevel env picks, plan)

def compileWalk : Traced (Level Statement × Plan) := do
  let (picks, plan) ← block.analyzeWalk env.opts
  return (← block.walkLevel env picks, plan)

/-- The level of a query by the route that its traversals ask for. -/
def compileLevel : Traced (Level Statement × Plan) :=
  if block.isSingleHop then do
    .logged (.singleHop block.start.aliasName)
    block.withoutWalks.compileChain env
  else if block.isWalk then block.compileWalk env
  else block.compileChain env

/-- The level of a query, whose clauses agree with its plan. -/
def compile : Traced (Level Statement × Plan) := do
  let (level, plan) ← block.compileLevel env
  level.select.check plan
  return (level, plan)

/-- A nested query names its own graph. -/
def nest (opts : Options) (block : Block Nested) : Nested where
  projection := block.projection
  outcome :=
    match block.graphId with
    | none => .ofExcept (.error (.unsupported (.subqueryGraph block.start.aliasName)))
    | some graphId => do return .mk (← block.compile { opts, graphId }).1

end Block

variable (opts : Options) (query : Query)

/-- The outermost block of a query, with what its nested queries become. -/
def Query.nested : Block Nested := query.block.map (Query.fold (Block.nest opts))

/-- A finished statement, with the event that tells its size. -/
def CompiledQuery.finish (fragment : Fragment) (plan : Plan) : Traced CompiledQuery := do
  let compiled : CompiledQuery := ⟨opts.dialect, fragment, plan⟩
  .logged (.compiled opts.dialect compiled.text.utf8ByteSize compiled.slots.length)
  return compiled

/-- The statement of a query for a graph, and its plan. -/
def Query.statement (graphId : String) (query : Query) : Traced (Statement × Plan) := do
  .logged (.compiling opts.dialect query.block.start.aliasName query.block.traversals.length)
  let (level, plan) ← (query.nested opts).compile { opts, graphId }
  return (.mk level, plan)

def Query.compile (graphId : String) (query : Query) : Traced CompiledQuery := do
  let (statement, plan) ← query.statement opts graphId
  CompiledQuery.finish opts (statement.print opts.dialect opts.schema) plan

end GraphSql
