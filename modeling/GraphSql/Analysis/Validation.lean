import GraphSql.Query.Block
import GraphSql.Scope

namespace GraphSql

def checkName (name : String) : Attempt Unit := (Identifier.check name).mapError CompileError.configuration

def Field.resolve (field : Field) : Attempt Target :=
  field.target.mapError fun fault => .unsupported (.invalidField fault)

namespace Block

variable {σ : Type}

/-- Adds an alias to those seen before; aliases differ in more than letter case. -/
def bindAlias (seen : List String) (aliasName : String) : Attempt (List String) := do
  checkName aliasName
  if seen.any (Text.sameUnquoted aliasName) then .error (.unsupported (.duplicateAlias aliasName))
  else return aliasName :: seen

def bindAliases (seen : List String) : List String → Attempt (List String)
  | [] => .ok seen
  | aliasName :: rest => do bindAliases (← bindAlias seen aliasName) rest

/-- The output columns of a walk share the names of aliases. -/
def walkAliases (hop : Traversal) : List String :=
  match hop.walk with
  | none => []
  | some walk => walk.pathAlias.toList ++ walk.depthAlias.toList

/-- Checks a traversal after the aliases seen before it and the node aliases it may join from. -/
def checkTraversal (seen joinable : List String) (hop : Traversal) : Attempt (List String) := do
  let seen ← bindAliases seen [hop.edgeAlias, hop.nodeAlias]
  if hop.edgeKinds.isEmpty && hop.inverseEdgeKinds.isEmpty then
    .error (.unsupported (.traversalWithoutKinds hop.edgeAlias))
  else if !joinable.contains hop.joinFrom then
    .error (.unsupported (.joinFromUnbound hop.nodeAlias hop.joinFrom))
  else bindAliases seen (walkAliases hop)

def checkTraversals (seen joinable : List String) : List Traversal → Attempt Unit
  | [] => .ok ()
  | hop :: rest => do
      let seen ← checkTraversal seen joinable hop
      checkTraversals seen (hop.nodeAlias :: joinable) rest

variable (block : Block σ)

def checkBindings : Attempt Unit := do
  checkName block.start.aliasName
  if block.start.kinds.isEmpty then
    .error (.unsupported (.startWithoutKinds block.start.aliasName))
  let seen ← bindAlias [] block.start.aliasName
  checkTraversals seen [block.start.aliasName] block.traversals

/-- The alias of a field is bound and the field denotes something. -/
def checkField (clause : Clause) (field : Field) : Attempt Unit := do
  if (block.binding? field.aliasName).isNone then
    .error (.unsupported (.unknownAliasIn field.aliasName clause))
  discard field.resolve

def checkFilter (filter : Filter σ) : Attempt Unit := do
  match block.binding? filter.aliasName with
  | none => .error (.unsupported (.filterOnUnknown filter.aliasName))
  | some binding =>
      match filter.element, binding.element with
      | .node, .edge => .error (.unsupported (.filterOnEdge filter.aliasName))
      | .edge, .node => .error (.unsupported (.filterOnNode filter.aliasName))
      | _, _ => .ok ()
  filter.predicate.fields.forM (block.checkField .predicate)

/-- The fields that the caller has selected. -/
def selectedFields : List SelectedField := block.selected.getD []

/-- The fields that the condition on groups reads. -/
def havingFields : List Field :=
  match block.having with
  | none => []
  | some predicate => predicate.fields

def checkReferences : Attempt Unit := do
  block.filters.forM block.checkFilter
  block.projection.forM fun projection => block.checkField .projection projection.source.fieldOf
  block.groupBy.forM (block.checkField .groupBy)
  block.havingFields.forM (block.checkField .having)
  block.orderBy.forM fun order => block.checkField .orderBy order.field
  block.selectedFields.forM fun selected => block.checkField .selected selected.field

/-- Checks output names, each of which may be used once. -/
def checkNames (duplicate : String → Unsupported) (seen : List String) : List String → Attempt Unit
  | [] => .ok ()
  | name :: rest => do
      checkName name
      if seen.contains name then .error (.unsupported (duplicate name))
      else checkNames duplicate (name :: seen) rest

def checkOutputNames : Attempt Unit := do
  checkNames .duplicateProjection [] (block.projection.map Projection.name)
  checkNames .duplicateSelected [] (block.selectedFields.map SelectedField.name)

/-- The names of the columns that a row set can carry for an alias. -/
def carriedNames (aliasName : String) : List String :=
  (Column.ofElement (block.elementOf aliasName)).map (carriedName aliasName) ++ [distanceName aliasName]

/-- Checks that no name is carried for two aliases; the names taken before come with their alias. -/
def checkCarriedNames (block : Block σ) (taken : List (String × String)) : List String → Attempt Unit
  | [] => .ok ()
  | aliasName :: rest => do
      let names := block.carriedNames aliasName
      match names.findSome? fun name => taken.find? (·.1 == name) with
      | some (name, other) => .error (.unsupported (.columnCollision other aliasName name))
      | none => block.checkCarriedNames (names.map (·, aliasName) ++ taken) rest

/-- Every check that comes before the analysis. -/
def validate : Attempt Unit := do
  block.checkBindings
  block.checkReferences
  block.checkOutputNames
  block.checkCarriedNames [] block.aliases

/-- The alias in whose row set the columns of an alias are read from its table. -/
def ownerOf (aliasName : String) : Option String :=
  match block.binding? aliasName with
  | none => none
  | some .start => some block.start.aliasName
  | some (.node index) | some (.edge index) =>
      block.traversals[index]?.map Traversal.nodeAlias

/-- The owner of everything that a filter reads, if there is one such owner. -/
def placement (filter : Filter σ) : Option String :=
  let owner := block.ownerOf filter.aliasName
  if filter.predicate.fields.all fun field => block.ownerOf field.aliasName == owner then owner
  else none

/-- Where each filter is evaluated; those without an owner after all joins. -/
def placements : List (Option String) := block.filters.map block.placement

end Block

end GraphSql
