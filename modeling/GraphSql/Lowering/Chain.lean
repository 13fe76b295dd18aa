import GraphSql.Lowering.Output

namespace GraphSql

/-- What a similarity search adds to the row set of its alias. -/
structure VectorParts where
  joins : List (Join Statement) := []
  columns : List OutputColumn := []
  conditions : Conditions := []

def VectorSearch.parts (vector : VectorSearch) : VectorParts :=
  let search := vector.search
  let embedding (name : String) : Term := .column .embedding name
  let distance : Term :=
    .distance search.metric (embedding "embedding") (.text (Dialect.embeddingText search.embedding))
  { joins :=
      [{ source := .table .embeddings
         conditions :=
           [.equal (embedding "graph_id") (graphColumn .node), .equal (embedding "node_kind") NodeKey.node.kind,
             .equal (embedding "node_id") NodeKey.node.id,
             .equal (embedding "field_path") (.text vector.pointer.display)] }]
    columns := [.named distance (distanceName vector.aliasName)]
    conditions :=
      search.minScore.toList.map fun score =>
        .compare distance .lessOrEqual (.value (.ofDouble (search.metric.threshold score))) }

/-- What is added to the row set of an alias. -/
def Decisions.vectorParts (picks : Decisions) (aliasName : String) : VectorParts :=
  match picks.vector with
  | some vector => if vector.aliasName = aliasName then vector.parts else {}
  | none => {}

/-- The hop is replaced by counts. -/
def Decisions.isCounted (picks : Decisions) (nodeAlias : String) : Bool := picks.counts.any (·.nodeAlias == nodeAlias)

namespace Setting

def rowSetName (env : Setting) (aliasName : String) : String := GraphSql.rowSetName env.tag aliasName

/-- The name of the row set that a hop makes. -/
def hopName (env : Setting) (picks : Decisions) (hop : Traversal) : String :=
  match picks.counts with
  | some counts =>
      env.rowSetName (if counts.nodeAlias = hop.nodeAlias then counts.aliasName else hop.nodeAlias)
  | none => env.rowSetName hop.nodeAlias

end Setting

namespace Block

variable {σ : Type} (block : Block Nested) (env : Setting) (picks : Decisions)

def startRowSet : Traced (RowSet Statement) := do
  let aliasName := block.start.aliasName
  let vector := picks.vectorParts aliasName
  let placed ← block.lowerPlaced env.opts.dialect picks block.startScope (some aliasName)
  return {
    name := env.rowSetName aliasName
    members :=
      [{ columns := block.tableColumns picks aliasName ++ vector.columns
         source := .table .nodes
         joins := vector.joins
         conditions :=
           block.startConditions env.graphId ++
             block.temporal.conditions picks.now .node ++ placed ++ vector.conditions }] }

/-- Where the rows of a hop come from. A row set before the last one is read once for each node,
so that later joins do not multiply rows. -/
def hopSource (hop : Traversal) : Source :=
  let name := env.rowSetName hop.joinFrom
  if picks.collapse || hop.joinFrom = block.start.aliasName then .relation name (some .source)
  else
    .distinct name [carriedName hop.joinFrom .id, carriedName hop.joinFrom .kind] .source

/-- What a hop hands on from where it starts: its key, or everything. -/
def handedColumns (hop : Traversal) : List OutputColumn :=
  if picks.collapse then [.every .source]
  else
    [Column.id, .kind].map fun column =>
      let name := carriedName hop.joinFrom column
      .named (.column .source name) name

/-- A later traversal joins from the node. -/
def isJoinedLater (hop : Traversal) (later : List Traversal) : Bool := later.any (·.joinFrom == hop.nodeAlias)

def hopRowSet (hop : Traversal) (later : List Traversal) : Traced (RowSet Statement) := do
  let vector := picks.vectorParts hop.nodeAlias
  let conditions ← block.hopConditions env.opts.dialect picks hop
  let joinedLater := isJoinedLater hop later
  return {
    name := env.rowSetName hop.nodeAlias
    materialized := joinedLater && env.opts.dialect.capabilities.materializes
    members :=
      [{ columns :=
           handedColumns picks hop ++ block.tableColumns picks hop.edgeAlias ++
             block.tableColumns picks hop.nodeAlias ++ vector.columns
         source := block.hopSource env picks hop
         joins := hop.joins env.graphId (.carried .source hop.joinFrom) false ++ vector.joins
         conditions := conditions ++ vector.conditions
         bounds := if joinedLater then picks.pushdown.map (⟨some ·, none⟩) else none }] }

/-- The name under which a count is handed on. -/
def countName (index : Nat) : String := s!"agg_{index}"

/-- The row set of the counts of a hop, one row for each start node. -/
def countRowSet (hop : Traversal) (counts : Counts) : Traced (RowSet Statement) := do
  let near := hop.direction.near
  let start := block.start.aliasName
  let conditions ← block.hopConditions env.opts.dialect picks hop
  return {
    name := env.rowSetName counts.aliasName
    members :=
      [{ columns :=
           [.named near.id (carriedName start .id), .named near.kind (carriedName start .kind)] ++
             counts.columns.map fun (index, distinct) =>
               .named (.aggregate (if distinct then .countDistinct else .count) NodeKey.node.id) (countName index)
         source := .table .edges
         joins :=
           [{ source := .table .nodes
              conditions :=
                .equal (graphColumn .node) (graphColumn .edge) ::
                  NodeKey.node.same hop.direction.far }]
         conditions :=
           [.equal (graphColumn .edge) (.text env.graphId), .kindIs near.kind block.start.kinds] ++ conditions
         groupBy := [near.id, near.kind] }] }

def hopRowSets (block : Block Nested) (env : Setting) (picks : Decisions) :
    List Traversal → Traced (List (RowSet Statement))
  | [] => pure []
  | hop :: later => do
      let rowSet ← match picks.counts with
        | some counts =>
            if counts.nodeAlias = hop.nodeAlias then
              block.countRowSet env picks hop counts
            else block.hopRowSet env picks hop later
        | none => block.hopRowSet env picks hop later
      return rowSet :: (← block.hopRowSets env picks later)

def lastAlias (block : Block σ) : String :=
  (block.traversals.getLast?.map Traversal.nodeAlias).getD block.start.aliasName

/-- The alias of the row set that the final SELECT reads an alias from. -/
def readFrom (block : Block σ) (picks : Decisions) (aliasName : String) : String :=
  if picks.collapse then block.lastAlias
  else (block.ownerOf aliasName).getD block.start.aliasName

/-- What the final SELECT can read. -/
def relations (block : Block σ) (env : Setting) (picks : Decisions) : Relations :=
  let isCounted (aliasName : String) : Bool := picks.isCounted ((block.ownerOf aliasName).getD block.start.aliasName)
  { carried :=
      (block.aliases.filter (!isCounted ·)).map fun aliasName =>
        { aliasName
          relation := env.rowSetName (block.readFrom picks aliasName)
          element := block.elementOf aliasName
          columns := picks.carried aliasName }
    unavailable := (block.aliases.filter isCounted).map fun aliasName => (aliasName, .countedAlias aliasName) }

/-- The term of a projection that has been counted; an optional hop counts nothing as zero. -/
def countTerm (block : Block σ) (env : Setting) (picks : Decisions) (index : Nat) : Option Term :=
  match picks.counts with
  | none => none
  | some counts =>
      if counts.columns.any (·.1 == index) then
        let term : Term := .column (.relation (env.rowSetName counts.aliasName)) (countName index)
        if (block.traversals.head?.map Traversal.optional).getD false then some (.orZero term)
        else some term
      else none

/-- Joins the row set of a hop to the one it starts from. -/
def rowSetJoin (hop : Traversal) : Join Statement :=
  let name := env.hopName picks hop
  { kind := if hop.optional then .left else .inner
    source := .relation name none
    conditions :=
      (NodeKey.carried (.relation name) hop.joinFrom).same
        (.carried (.relation (env.rowSetName hop.joinFrom)) hop.joinFrom) }

def chainSelect : Traced (Select Statement) := do
  let dialect := env.opts.dialect
  let output : Output :=
    { relations := block.relations env picks
      nearest := picks.vector.map fun vector => (vector.aliasName, vector.search.count)
      aliases := block.aliases
      computed := block.countTerm env picks }
  let columns ← output.columns block
  let conditions ← block.lowerPlaced dialect picks output.scope none
  let groupBy ← if picks.counts.isNone then output.groupBy block.groupBy else pure []
  let having ← if picks.counts.isNone then output.having dialect block.having else pure none
  let orderBy ← output.orderBy block.orderBy
  return {
    columns
    source := .relation (env.rowSetName (if picks.collapse then block.lastAlias else block.start.aliasName)) none
    joins := if picks.collapse then [] else block.traversals.map (rowSetJoin env picks)
    conditions
    groupBy
    having
    orderBy
    bounds := output.bounds block }

def chainLevel : Traced (Level Statement) := do
  let start ← block.startRowSet env picks
  let hops ← block.hopRowSets env picks block.traversals
  let select ← block.chainSelect env picks
  return { rowSets := start :: hops, select }

end Block

end GraphSql
