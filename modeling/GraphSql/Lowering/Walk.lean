import GraphSql.Lowering.Output

namespace GraphSql

/-- The hop of a walk with the depths that its walks may have. -/
structure Walk where
  hop : Traversal
  walk : WalkSpec
  range : DepthRange

namespace Walk

def depthName : String := "depth"

def pathName : String := "path"

def rowSetName (env : Setting) : String := env.tag ++ "recursive_cte"

/-- The columns of a walk after those of its nodes. -/
def trailColumns (walk : Walk) (depth path : Term) : List OutputColumn :=
  .named depth depthName :: if walk.walk.tracksPath then [.named path pathName] else []

/-- The first member: each start node is a walk of depth zero. -/
def startMember (walk : Walk) (block : Block Nested) (env : Setting)
    (picks : Decisions) : Traced (Select Statement) := do
  let start := block.start.aliasName
  let placed ← block.lowerPlaced env.opts.dialect picks block.startScope (some start)
  return {
    columns :=
      block.tableColumns picks start ++ block.tableColumns picks walk.hop.nodeAlias ++
        walk.trailColumns (.integer 0) (.pathStart NodeKey.node.id)
    source := .table .nodes
    conditions := block.startConditions env.graphId ++ block.temporal.conditions picks.now .node ++ placed }

/-- The walk may be extended to the node in reach. -/
def stepConditions (walk : Walk) : Conditions :=
  .compare (.column .walk depthName) .less (.integer walk.range.greatest.toNat) ::
    if walk.walk.tracksPath then [.offPath (.column .walk pathName) NodeKey.node.id] else []

/-- A member that extends walks by one step along the hop. -/
def stepMember (walk : Walk) (block : Block Nested) (env : Setting) (picks : Decisions)
    (hop : Traversal) (guards : Conditions) : Traced (Select Statement) := do
  let dialect := env.opts.dialect
  let start := block.start.aliasName
  let target := hop.nodeAlias
  let conditions ← block.hopConditions dialect picks hop
  return {
    columns :=
      (picks.carried start).map (fun column =>
        .named (.column .walk (carriedName start column)) (carriedName start column)) ++
        block.tableColumns picks target ++
        walk.trailColumns (.successor (.column .walk depthName)) (.pathExtend (.column .walk pathName) NodeKey.node.id)
    source := .relation (rowSetName env) (some .walk)
    joins := hop.joins env.graphId (.carried .walk target) dialect.capabilities.fixesJoinOrder
    conditions := conditions ++ walk.stepConditions ++ guards }

/-- The hop along its edge kinds only. -/
def direct (hop : Traversal) : Traversal := { hop with inverseEdgeKinds := [] }

/-- The hop along its inverse edge kinds only, as a hop in the other direction. -/
def inverse (hop : Traversal) : Traversal :=
  { hop with
    edgeKinds := hop.inverseEdgeKinds
    inverseEdgeKinds := []
    direction := hop.direction.reversed }

/-- An edge from a node to itself that may be followed either way is followed once. -/
def loopGuards (hop : Traversal) : Conditions :=
  let both := hop.inverseEdgeKinds.filter hop.edgeKinds.contains
  if both.isEmpty then []
  else
    [.notAll (Direction.outward.near.same Direction.outward.far ++ [Traversal.edgeKindIs both])]

/-- The hops along which walks are extended, each with further conditions. -/
def steps (strategy : WalkStrategy) (hop : Traversal) : List (Traversal × Conditions) :=
  match strategy with
  | .oneMember => [(hop, [])]
  | .manyMembers =>
      (if hop.edgeKinds.isEmpty then [] else [(direct hop, [])]) ++
        if hop.inverseEdgeKinds.isEmpty then [] else [(inverse hop, loopGuards hop)]

def stepMembers (walk : Walk) (block : Block Nested) (env : Setting) (picks : Decisions) :
    List (Traversal × Conditions) → Traced (List (Select Statement))
  | [] => pure []
  | (hop, guards) :: rest => do
      let member ← walk.stepMember block env picks hop guards
      return member :: (← walk.stepMembers block env picks rest)

/-- The final SELECT can read the two ends of a walk, and none of its edges. -/
def relations {σ : Type} (walk : Walk) (block : Block σ) (env : Setting) (picks : Decisions) : Relations where
  carried :=
    [block.start.aliasName, walk.hop.nodeAlias].map fun aliasName =>
      { aliasName
        relation := rowSetName env
        element := .node
        columns := picks.carried aliasName }
  unavailable := [(walk.hop.edgeAlias, .walkedEdge walk.hop.edgeAlias)]

/-- The depth and the path of a walk, where the query asks for them. -/
def trailOutputs (walk : Walk) : List OutputColumn :=
  walk.walk.depthAlias.toList.map (.quoted (.bare depthName) ·) ++
    walk.walk.pathAlias.toList.map (.quoted (.bare pathName) ·)

/-- Walks that are too short are dropped. -/
def depthConditions (walk : Walk) : Conditions :=
  if walk.range.least = 0 then []
  else [.compare (.bare depthName) .greaterOrEqual (.integer walk.range.least.toNat)]

def select (walk : Walk) (block : Block Nested) (env : Setting) (picks : Decisions) : Traced (Select Statement) := do
  let dialect := env.opts.dialect
  let output : Output :=
    { relations := walk.relations block env picks
      aliases := [block.start.aliasName, walk.hop.nodeAlias] }
  let columns ← output.columns block
  let conditions ← block.lowerPlaced dialect picks output.scope none
  let groupBy ← output.groupBy block.groupBy
  let having ← output.having dialect block.having
  let orderBy ← output.orderBy block.orderBy
  return {
    columns := columns ++ walk.trailOutputs
    source := .relation (rowSetName env) none
    conditions := walk.depthConditions ++ conditions
    groupBy
    having
    orderBy
    bounds := output.bounds block }

end Walk

namespace Block

def walk {σ : Type} (block : Block σ) : Attempt Walk := do
  let (hop, walk) ← block.onlyWalk
  return ⟨hop, walk, ← walk.depthRange⟩

def walkLevel (block : Block Nested) (env : Setting) (picks : Decisions) : Traced (Level Statement) := do
  let walk ← block.walk
  let first ← walk.startMember block env picks
  let strategy := env.opts.dialect.capabilities.walk
  let further ← walk.stepMembers block env picks (Walk.steps strategy walk.hop)
  let select ← walk.select block env picks
  return {
    isRecursive := true
    rowSets := [{ name := Walk.rowSetName env, members := first :: further }]
    select }

end Block

end GraphSql
