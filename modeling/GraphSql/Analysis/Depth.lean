import GraphSql.Analysis.Validation

namespace GraphSql

structure DepthRange where
  least : UInt32
  greatest : UInt32
  deriving DecidableEq, Repr

/-- The greatest depth where the query does not give one. -/
def defaultMaxDepth : UInt32 := 100

/-- The greatest depth that a query may give. -/
def maxDepthLimit : UInt32 := 1000

namespace WalkSpec

def greatestDepth (walk : WalkSpec) : Attempt UInt32 :=
  let depth := walk.maxDepth.toInt
  if depth = -1 then .ok defaultMaxDepth
  else if maxDepthLimit.toNat < depth then
    .error (.unsupported (.depthAboveLimit depth maxDepthLimit.toNat))
  else if depth < 1 then .error (.unsupported (.depthBelowOne depth))
  else .ok (UInt32.ofNat depth.toNat)

def depthRange (walk : WalkSpec) : Attempt DepthRange := do
  let greatest ← walk.greatestDepth
  if greatest < walk.minDepth then
    .error (.unsupported (.emptyDepthRange walk.minDepth.toNat greatest.toNat))
  else return ⟨walk.minDepth, greatest⟩

/-- The visited path is carried to prevent cycles or to be returned. -/
def tracksPath (walk : WalkSpec) : Bool := walk.cyclePolicy == .prevent || walk.pathAlias.isSome

/-- A walk of one step that returns neither path nor depth. -/
def isSingleStep (walk : WalkSpec) : Bool :=
  walk.minDepth == 1 && walk.maxDepth == 1 && walk.pathAlias.isNone && walk.depthAlias.isNone

end WalkSpec

namespace Block

variable {σ : Type}

/-- The only traversal is a walk of one step, which is a plain hop. -/
def isSingleHop (block : Block σ) : Bool :=
  match block.traversals with
  | [hop] => hop.walk.any WalkSpec.isSingleStep
  | _ => false

/-- Every traversal as a plain hop. -/
def withoutWalks (block : Block σ) : Block σ :=
  { block with traversals := block.traversals.map fun hop => { hop with walk := none } }

/-- The hop of variable length, which has to be the only one. -/
def onlyWalk (block : Block σ) : Attempt (Traversal × WalkSpec) :=
  match block.traversals with
  | [hop] =>
      match hop.walk with
      | some walk => .ok (hop, walk)
      | none =>
          .error (.invariant "recursive" "recursive compilation without a variable-length traversal"
            s!"traversal '{hop.nodeAlias}'")
  | hops => .error (.unsupported (.walkAmongOthers hops.length))

/-- A walk is not optional, has depths, and is not combined with a similarity search. -/
def checkWalk (block : Block σ) (hasVector : Bool) : Attempt Unit := do
  let (hop, walk) ← block.onlyWalk
  if hop.optional then .error (.unsupported (.optionalWalk hop.nodeAlias))
  discard walk.depthRange
  if hasVector then .error (.unsupported .similarityInWalk)

end Block

end GraphSql
