import GraphSql.Analysis.Carrying
import GraphSql.Analysis.Similarity

namespace GraphSql

/-- Counts of the nodes at the end of the only hop, computed for each start node before the join. -/
structure Counts where
  nodeAlias : String
  /-- The position of each counting projection, and whether it counts distinct nodes. -/
  columns : List (Nat × Bool)
  deriving DecidableEq, Repr

def Counts.aliasName (counts : Counts) : String := counts.nodeAlias ++ "_counts"

namespace Block

variable {σ : Type}

/-- Each traversal joins from the node of the one before it. -/
def isLinearFrom (previous : String) : List Traversal → Bool
  | [] => true
  | hop :: rest => hop.joinFrom == previous && isLinearFrom hop.nodeAlias rest

variable (block : Block σ)

def isGrouped : Bool := !block.groupBy.isEmpty || block.having.isSome || block.hasAggregate

/-- A row of the last row set stands for a row of the result, so that the row sets need not be
joined again. -/
def isCollapsible : Bool :=
  !block.traversals.isEmpty && isLinearFrom block.start.aliasName block.traversals &&
    block.traversals.all (!·.optional) && !block.isGrouped && block.selected.isSome &&
    block.projection.isEmpty

mutual

/-- The predicate fixes the id of the alias. -/
def pinsId (aliasName : String) : Predicate σ → Bool
  | .comparison field .equal (.literal value _) =>
      field.aliasName == aliasName && !value.isNull && field.denotes (.column .id)
  | .and operands => anyPinsId aliasName operands
  | _ => false

def anyPinsId (aliasName : String) : List (Predicate σ) → Bool
  | [] => false
  | operand :: rest => pinsId aliasName operand || anyPinsId aliasName rest

end

def pushdownFactor : Nat := 8

def pushdownCap : Nat := 10000

/-- The bound for the row sets in the middle of a chain, if the result is bounded. -/
def pushdown (placements : List (Option String)) (vector : Option VectorSearch) : Option UInt64 :=
  match block.limit with
  | none => none
  | some limit =>
      if block.offset.isNone && !block.isGrouped && block.orderBy.isEmpty &&
          2 ≤ block.traversals.length && block.traversals.all (!·.optional) && vector.isNone &&
          (block.placedAt placements (some block.start.aliasName)).any (pinsId block.start.aliasName)
      then some (UInt64.ofNat (min (limit.toNat * pushdownFactor) pushdownCap))
      else none

/-- What a projection is to the counts: a column of the start node, a count, or something else. -/
inductive CountRole where
  | start
  | count (distinct : Bool)
  | other
  deriving DecidableEq, Repr

def countRole (start node : String) (projection : Projection) : CountRole :=
  match projection.source with
  | .field target => if target.aliasName = start then .start else .other
  | .aggregate expression =>
      if expression.function.isCount && expression.field.aliasName == node &&
          (expression.field.denotes .whole || expression.field.denotes (.column .id))
      then
        .count (expression.function == .countDistinct)
      else .other

/-- The counting projections from a position on; none where one of them is no count and not of the
start node. -/
def countColumns (start node : String) : Nat → List Projection → Option (List (Nat × Bool))
  | _, [] => some []
  | index, projection :: rest =>
      match countRole start node projection with
      | .start => countColumns start node (index + 1) rest
      | .count distinct =>
          (countColumns start node (index + 1) rest).map ((index, distinct) :: ·)
      | .other => none

/-- Grouping by the id of the start node and by nothing else. -/
def groupsByStart : Bool :=
  match block.groupBy with
  | [field] => field.aliasName == block.start.aliasName && field.denotes (.column .id)
  | _ => false

/-- The counts that a query with one hop can be computed from. -/
def counts (placements : List (Option String)) (vector : Option VectorSearch) : Option Counts :=
  match block.traversals with
  | [hop] =>
      if block.groupsByStart && block.having.isNone && hop.inverseEdgeKinds.isEmpty &&
          vector.isNone && placements.all Option.isSome &&
          block.orderBy.all fun order => order.field.aliasName == block.start.aliasName
      then
        match countColumns block.start.aliasName hop.nodeAlias 0 block.projection with
        | none | some [] => none
        | some columns => some ⟨hop.nodeAlias, columns⟩
      else none
  | _ => none

end Block

end GraphSql
