import GraphSql.Query.Predicate

namespace GraphSql

/-- The nodes that a query starts from. -/
structure Start where
  aliasName : String
  /-- The admitted kinds; the caller has already added the kinds below each of them. -/
  kinds : List String
  includeSubclasses : Bool := false
  deriving DecidableEq, Repr

/-- Whether a walk may visit a node twice. -/
inductive CyclePolicy where
  | prevent
  | allow
  deriving DecidableEq, Repr

instance : Named CyclePolicy where
  members := [.prevent, .allow]
  name
    | .prevent => "prevent"
    | .allow => "allow"

/-- How often a hop is repeated; a greatest depth of `-1` leaves the bound to the compiler. -/
structure WalkSpec where
  minDepth : UInt32
  maxDepth : Int64
  cyclePolicy : CyclePolicy := .prevent
  /-- The output column for the visited path. -/
  pathAlias : Option String := none
  /-- The output column for the depth. -/
  depthAlias : Option String := none
  deriving DecidableEq, Repr

/-- One hop over an edge to a node. -/
structure Traversal where
  edgeAlias : String
  edgeKinds : List String
  /-- Kinds of edges that are followed against the direction. -/
  inverseEdgeKinds : List String := []
  direction : Direction := .outward
  nodeAlias : String
  nodeKinds : List String
  joinFrom : String
  optional : Bool := false
  walk : Option WalkSpec := none
  deriving DecidableEq, Repr

/-- One outward hop over one kind of edge to one kind of node. -/
def Traversal.outwardFrom (joinFrom edgeAlias edgeKind nodeAlias nodeKind : String) : Traversal where
  edgeAlias
  edgeKinds := [edgeKind]
  nodeAlias
  nodeKinds := [nodeKind]
  joinFrom

/-- A predicate on one alias. -/
structure Filter (σ : Type) where
  aliasName : String
  element : Element := .node
  predicate : Predicate σ

inductive ProjectionSource where
  | field (field : Field)
  | aggregate (aggregate : Aggregate)
  deriving DecidableEq, Repr

def ProjectionSource.fieldOf : ProjectionSource → Field
  | .field target => target
  | .aggregate expression => expression.field

def ProjectionSource.isAggregate : ProjectionSource → Bool
  | .field _ => false
  | .aggregate _ => true

/-- One output column. -/
structure Projection where
  name : String
  source : ProjectionSource
  deriving DecidableEq, Repr

structure Order where
  field : Field
  direction : SortDirection := .ascending
  nulls : Option NullsOrder := none
  deriving DecidableEq, Repr

/-- Which rows of the tables are visible. -/
inductive TemporalMode where
  | current
  | asOf (timestamp : String)
  | includeEnded
  | includeTombstones
  deriving DecidableEq, Repr

/-- A field that the caller reads, with the name of its column. -/
structure SelectedField where
  field : Field
  name : String
  deriving DecidableEq, Repr

/-- One level of a query. -/
structure Block (σ : Type) where
  graphId : Option String := none
  start : Start
  traversals : List Traversal := []
  filters : List (Filter σ) := []
  /-- No projection selects every column of every alias. -/
  projection : List Projection := []
  groupBy : List Field := []
  having : Option (Predicate σ) := none
  orderBy : List Order := []
  limit : Option UInt64 := none
  offset : Option UInt64 := none
  temporal : TemporalMode := .current
  /-- Exactly the fields that the caller reads, if it says so. -/
  selected : Option (List SelectedField) := none

/-- Where an alias is bound. -/
inductive Binding where
  | start
  | node (traversal : Nat)
  | edge (traversal : Nat)
  deriving DecidableEq, Repr

def Binding.element : Binding → Element
  | .start | .node _ => .node
  | .edge _ => .edge

namespace Filter

variable {σ τ : Type}

def map (f : σ → τ) (filter : Filter σ) : Filter τ where
  aliasName := filter.aliasName
  element := filter.element
  predicate := filter.predicate.map f

end Filter

namespace Block

variable {σ τ : Type}

/-- Replaces the nested queries. -/
def map (f : σ → τ) (block : Block σ) : Block τ where
  graphId := block.graphId
  start := block.start
  traversals := block.traversals
  filters := block.filters.map (Filter.map f)
  projection := block.projection
  groupBy := block.groupBy
  having := block.having.map (Predicate.map f)
  orderBy := block.orderBy
  limit := block.limit
  offset := block.offset
  temporal := block.temporal
  selected := block.selected

variable (block : Block σ)

def isWalk : Bool := block.traversals.any (·.walk.isSome)

def hasAggregate : Bool := block.projection.any (·.source.isAggregate)

/-- The aliases in the order in which they are bound. -/
def aliases : List String := block.start.aliasName :: block.traversals.flatMap fun hop => [hop.edgeAlias, hop.nodeAlias]

/-- The binding of an alias among the traversals from the given position on. -/
def bindingIn (aliasName : String) : Nat → List Traversal → Option Binding
  | _, [] => none
  | index, hop :: rest =>
      if hop.nodeAlias = aliasName then some (.node index)
      else if hop.edgeAlias = aliasName then some (.edge index)
      else bindingIn aliasName (index + 1) rest

def binding? (aliasName : String) : Option Binding :=
  if block.start.aliasName = aliasName then some .start else bindingIn aliasName 0 block.traversals

/-- What the rows of an alias are; an alias that is not bound counts as a node. -/
def elementOf (aliasName : String) : Element :=
  match block.binding? aliasName with
  | some binding => binding.element
  | none => .node

/-- A query from the nodes of one kind. -/
def ofKind (aliasName kind : String) : Block σ where
  start := { aliasName, kinds := [kind] }

def withGraph (graphId : String) : Block σ := { block with graphId := some graphId }

def traverse (hop : Traversal) : Block σ := { block with traversals := block.traversals ++ [hop] }

def filterBy (element : Element) (aliasName : String) (predicate : Predicate σ) : Block σ :=
  { block with filters := block.filters ++ [{ aliasName, element, predicate }] }

def project (name : String) (source : ProjectionSource) : Block σ :=
  { block with projection := block.projection ++ [{ name, source }] }

def orderBySort (field : Field) (direction : SortDirection) : Block σ :=
  { block with orderBy := block.orderBy ++ [{ field, direction }] }

def withLimit (limit : UInt64) : Block σ := { block with limit := some limit }

def withOffset (offset : UInt64) : Block σ := { block with offset := some offset }

/-- Adds a selected field, to none if nothing was selected before. -/
def select (name : String) (field : Field) : Block σ :=
  { block with selected := some (block.selected.getD [] ++ [{ field, name }]) }

end Block

/-- A query: a block whose nested queries are queries. -/
inductive Query where
  | mk (block : Block Query)

namespace Query

def block : Query → Block Query
  | .mk block => block

variable {τ : Type}

mutual

/-- Computes a value for a query from the values of its nested queries. -/
def fold (step : Block τ → τ) : Query → τ
  | .mk block => step (foldBlock step block)

def foldBlock (step : Block τ → τ) : Block Query → Block τ
  | ⟨graphId, start, traversals, filters, projection, groupBy, having, orderBy, limit, offset, temporal, selected⟩ =>
    ⟨graphId, start, traversals, foldFilters step filters, projection, groupBy,
      foldHaving step having, orderBy, limit, offset, temporal, selected⟩

def foldFilters (step : Block τ → τ) : List (Filter Query) → List (Filter τ)
  | [] => []
  | filter :: rest => foldFilter step filter :: foldFilters step rest

def foldFilter (step : Block τ → τ) : Filter Query → Filter τ
  | ⟨aliasName, element, predicate⟩ => ⟨aliasName, element, foldPredicate step predicate⟩

def foldHaving (step : Block τ → τ) : Option (Predicate Query) → Option (Predicate τ)
  | none => none
  | some predicate => some (foldPredicate step predicate)

def foldPredicate (step : Block τ → τ) : Predicate Query → Predicate τ
  | .comparison field op value => .comparison field op value
  | .text field op pattern => .text field op pattern
  | .nullCheck field op => .nullCheck field op
  | .between field lower upper => .between field lower upper
  | .array field op values => .array field op values
  | .object field op pointer value => .object field op pointer value
  | .aggregate expression op value => .aggregate expression op value
  | .and operands => .and (foldPredicates step operands)
  | .or operands => .or (foldPredicates step operands)
  | .not operand => .not (foldPredicate step operand)
  | .subquery query negated => .subquery (fold step query) negated
  | .inSubquery field query negated => .inSubquery field (fold step query) negated
  | .similarity search => .similarity search

def foldPredicates (step : Block τ → τ) : List (Predicate Query) → List (Predicate τ)
  | [] => []
  | operand :: rest => foldPredicate step operand :: foldPredicates step rest

end

mutual

theorem foldPredicate_eq_map (step : Block τ → τ) :
    (predicate : Predicate Query) → foldPredicate step predicate = predicate.map (fold step)
  | .comparison .. | .text .. | .nullCheck .. | .between .. | .array .. | .object .. |
    .aggregate .. | .similarity _ | .subquery .. | .inSubquery .. => by
      simp [foldPredicate, Predicate.map]
  | .and operands | .or operands => by
      simp [foldPredicate, Predicate.map, foldPredicates_eq_mapAll step operands]
  | .not operand => by
      simp [foldPredicate, Predicate.map, foldPredicate_eq_map step operand]

theorem foldPredicates_eq_mapAll (step : Block τ → τ) : (operands : List (Predicate Query)) →
      foldPredicates step operands = Predicate.mapAll (fold step) operands
  | [] => by simp [foldPredicates, Predicate.mapAll]
  | operand :: rest => by
      simp [foldPredicates, Predicate.mapAll, foldPredicate_eq_map step operand, foldPredicates_eq_mapAll step rest]

end

theorem foldFilter_eq_map (step : Block τ → τ) (filter : Filter Query) :
    foldFilter step filter = filter.map (fold step) := by
  cases filter
  simp [foldFilter, Filter.map, foldPredicate_eq_map]

theorem foldFilters_eq_map (step : Block τ → τ) (filters : List (Filter Query)) :
    foldFilters step filters = filters.map (Filter.map (fold step)) := by
  induction filters with
  | nil => simp [foldFilters]
  | cons filter rest ih =>
      simp [foldFilters, foldFilter_eq_map, ih]

/-- Folding a query is a step on its block with the nested queries folded. -/
theorem fold_mk (step : Block τ → τ) (block : Block Query) : fold step (.mk block) = step (block.map (fold step)) := by
  cases block with
  | mk graphId start traversals filters projection groupBy having orderBy limit offset temporal selected =>
      cases having <;>
        simp [fold, foldBlock, Block.map, foldFilters_eq_map, foldHaving, foldPredicate_eq_map]

end Query

end GraphSql
