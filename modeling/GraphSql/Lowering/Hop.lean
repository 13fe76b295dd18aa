import GraphSql.Analysis
import GraphSql.Lowering.Predicate

namespace GraphSql

/-- What is given beside the query: the options, the graph, and the tag of its row sets. -/
structure Setting where
  opts : Options
  graphId : String
  tag : String := ""

/-- The id and the kind of a node, as terms. -/
structure NodeKey where
  id : Term
  kind : Term

/-- The end of an edge from which a hop in the direction leaves. -/
def Direction.near : Direction → NodeKey
  | .outward => ⟨.ofColumn .edge .fromId, .ofColumn .edge .fromKind⟩
  | .inward => ⟨.ofColumn .edge .toId, .ofColumn .edge .toKind⟩

/-- The end of an edge that a hop in the direction reaches. -/
def Direction.far (direction : Direction) : NodeKey := direction.reversed.near

def graphColumn (row : Row) : Term := .column row "graph_id"

namespace NodeKey

variable {σ : Type}

/-- Both keys are those of one node. -/
def same (first second : NodeKey) : List (Condition σ) := [.equal first.id second.id, .equal first.kind second.kind]

/-- The key of the node in reach. -/
def node : NodeKey := ⟨.ofColumn .node .id, .ofColumn .node .kind⟩

/-- The key of an alias in a row set that carries it. -/
def carried (row : Row) (aliasName : String) : NodeKey :=
  ⟨.column row (carriedName aliasName .id), .column row (carriedName aliasName .kind)⟩

end NodeKey

namespace Traversal

variable {σ : Type}

def edgeKindIs (kinds : List String) : Condition σ := .kindIs (.ofColumn .edge .kind) kinds

/-- An edge of one of the kinds leaves from the node in the direction. -/
def leavesFrom (start : NodeKey) (direction : Direction) (kinds : List String) : Condition σ :=
  .all (edgeKindIs kinds :: direction.near.same start)

/-- The edge is followed from the node. With inverse kinds, either way may be taken. -/
def edgeConditions (hop : Traversal) (start : NodeKey) : List (Condition σ) :=
  let forward := leavesFrom start hop.direction hop.edgeKinds
  let backward := leavesFrom start hop.direction.reversed hop.inverseEdgeKinds
  if hop.inverseEdgeKinds.isEmpty then hop.direction.near.same start
  else if hop.edgeKinds.isEmpty then [backward]
  else [.any [forward, backward]]

/-- The node is at the far end of the edge, as the edge is followed. -/
def nodeConditions (hop : Traversal) (start : NodeKey) : List (Condition σ) :=
  let far := hop.direction.far
  let near := hop.direction.near
  if hop.inverseEdgeKinds.isEmpty then NodeKey.node.same far
  else if hop.edgeKinds.isEmpty then NodeKey.node.same near
  else
    let forward := leavesFrom start hop.direction hop.edgeKinds
    [.equalsCase NodeKey.node.id forward far.id near.id, .equalsCase NodeKey.node.kind forward far.kind near.kind]

def joins (hop : Traversal) (graphId : String) (start : NodeKey) (ordered : Bool) : List (Join σ) :=
  [{ ordered
     source := .table .edges
     conditions := .equal (graphColumn .edge) (.text graphId) :: hop.edgeConditions start },
    { source := .table .nodes
      conditions := .equal (graphColumn .node) (graphColumn .edge) :: hop.nodeConditions start }]

/-- The kinds that a hop admits, as far as its joins do not check them. -/
def kindConditions (hop : Traversal) : List (Condition σ) :=
  (if hop.inverseEdgeKinds.isEmpty then [edgeKindIs hop.edgeKinds] else []) ++
    if hop.nodeKinds.isEmpty then [] else [.kindIs (.ofColumn .node .kind) hop.nodeKinds]

def scope (hop : Traversal) : Scope := .ofTables [(hop.edgeAlias, .edge), (hop.nodeAlias, .node)]

end Traversal

namespace Block

variable {σ : Type}

variable (block : Block σ) (picks : Decisions)

/-- The conditions on the nodes that a query starts from. -/
def startConditions (graphId : String) : Conditions :=
  [.equal (graphColumn .node) (.text graphId), .kindIs (.ofColumn .node .kind) block.start.kinds]

def startScope : Scope := .ofTables [(block.start.aliasName, .node)]

/-- The predicates placed in the row set of an alias, as conditions. -/
def lowerPlaced (block : Block Nested) (dialect : Dialect) (picks : Decisions)
    (scope : Scope) (place : Option String) : Traced Conditions :=
  Predicate.lowerAll dialect scope (block.placedAt picks.placements place)

/-- The carried columns of an alias, read from its table. -/
def tableColumns (aliasName : String) : List OutputColumn :=
  (picks.carried aliasName).map fun column =>
    .named (.ofColumn (block.elementOf aliasName) column) (carriedName aliasName column)

/-- The conditions under which the rows of a hop are visible. -/
def hopVisibility : Conditions :=
  block.temporal.conditions picks.now .edge ++ block.temporal.conditions picks.now .node

/-- Every condition on the edge and the node of a hop. -/
def hopConditions (block : Block Nested) (dialect : Dialect) (picks : Decisions)
    (hop : Traversal) : Traced Conditions := do
  let placed ← block.lowerPlaced dialect picks hop.scope (some hop.nodeAlias)
  return hop.kindConditions ++ block.hopVisibility picks ++ placed

end Block

end GraphSql
