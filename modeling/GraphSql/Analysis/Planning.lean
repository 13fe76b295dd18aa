import GraphSql.Analysis.Depth
import GraphSql.Analysis.Shortcut
import GraphSql.Plan

namespace GraphSql.Block

variable {σ : Type}

/-- A filter where there is something to filter. -/
def filtered (aliasName : String) (predicates : Nat) (input : Plan) : Plan :=
  if predicates = 0 then input else input.under (.filter aliasName predicates)

variable (block : Block σ)

/-- The rows of an alias that its own predicates admit. -/
def scanPlan (placements : List (Option String)) (aliasName : String) (source : Element) : Plan :=
  filtered aliasName (block.placedAt placements (some aliasName)).length (.node (.scan aliasName source) [])

/-- The operators above the joins. -/
def finishPlan (finalPredicates : Nat) (aggregates hasVector : Bool) (input : Plan) : Plan :=
  let input := filtered "*" finalPredicates input
  let input :=
    if aggregates && block.isGrouped then
      input.under (.aggregate block.groupBy.length
        (block.projection.countP (·.source.isAggregate)) block.having.isSome)
    else input
  let input :=
    if !block.orderBy.isEmpty || hasVector then
      input.under (.sort (block.orderBy.length + if hasVector then 1 else 0))
    else input
  let input :=
    if block.limit.isSome || block.offset.isSome || hasVector then
      input.under (.limitOffset block.limit block.offset)
    else input
  let columns :=
    if !block.projection.isEmpty then some block.projection.length
    else block.selected.map List.length
  input.under (.project columns)

def joinPlan (placements : List (Option String)) (counts : Option Counts) (input : Plan) (hop : Traversal) : Plan :=
  let aliasName := match counts with
    | some counts => if counts.nodeAlias = hop.nodeAlias then counts.aliasName else hop.nodeAlias
    | none => hop.nodeAlias
  .node (.join aliasName (if hop.optional then .left else .inner))
    [input, block.scanPlan placements hop.nodeAlias .edge]

def chainPlan (placements : List (Option String)) (vector : Option VectorSearch) (counts : Option Counts) : Plan :=
  let start := block.scanPlan placements block.start.aliasName .node
  let joined := block.traversals.foldl (block.joinPlan placements counts) start
  let searched := match vector with
    | none => joined
    | some vector =>
        joined.under (.nearest vector.aliasName vector.search.metric vector.search.count)
  block.finishPlan (block.placedAt placements none).length counts.isNone vector.isSome searched

def walkPlan (placements : List (Option String)) : Attempt Plan := do
  let (hop, walk) ← block.onlyWalk
  let range ← walk.depthRange
  let start := block.scanPlan placements block.start.aliasName .node
  let expanded := start.under (.expand hop.nodeAlias range.least range.greatest walk.tracksPath)
  return block.finishPlan (block.placedAt placements none).length true false expanded

end GraphSql.Block
