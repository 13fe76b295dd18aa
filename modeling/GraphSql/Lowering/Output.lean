import GraphSql.Lowering.Hop

namespace GraphSql

/-- What the final SELECT reads. -/
structure Output where
  relations : Relations
  /-- The alias of the similarity search and the number of its neighbours. -/
  nearest : Option (String × UInt64) := none
  /-- The aliases whose columns are returned where the query names no columns. -/
  aliases : List String
  /-- Projections that are already computed, by position. -/
  computed : Nat → Option Term := fun _ => none

namespace Output

def scope (output : Output) : Scope := output.relations.scope false

variable {σ : Type} (output : Output)

def aggregateScope : Scope := output.relations.scope true

/-- The distance that is carried for an alias. -/
def distance (aliasName : String) : Attempt Term :=
  match output.relations.find? aliasName with
  | some carried => .ok (.column (.relation carried.relation) (distanceName aliasName))
  | none =>
      .error (.invariant "final_select" s!"vector alias '{aliasName}' has no relation" "scope")

/-- The distance of an alias, if it is the one of the similarity search. -/
def distanceOf (aliasName : String) : Attempt (List Term) :=
  match output.nearest with
  | some (searched, _) =>
      if searched = aliasName then return [← output.distance aliasName] else .ok []
  | none => .ok []

/-- The columns of a field; a whole alias has many, each named after the field. -/
def fieldColumns (name : String) (field : Field) : Attempt (List OutputColumn) := do
  match ← field.resolve with
  | .whole => do
      let columns ← output.relations.allColumns field.aliasName
      let distances ← output.distanceOf field.aliasName
      return columns.map (fun (column, term) => .quoted term (name ++ "_" ++ column.name)) ++
        distances.map (.quoted · (name ++ "_distance"))
  | .column _ | .property _ => return [.quoted (← field.readTyped output.scope) name]

def projectionColumns (index : Nat) (projection : Projection) : Attempt (List OutputColumn) :=
  match output.computed index with
  | some term => .ok [.quoted term projection.name]
  | none =>
      match projection.source with
      | .field target => output.fieldColumns projection.name target
      | .aggregate expression => do
          return [.quoted (← expression.lower output.aggregateScope) projection.name]

/-- The columns of projections from a position on. -/
def projectionsFrom (output : Output) : Nat → List Projection → Attempt (List OutputColumn)
  | _, [] => .ok []
  | index, projection :: rest => do
      let columns ← output.projectionColumns index projection
      return columns ++ (← output.projectionsFrom (index + 1) rest)

def selectedColumns (output : Output) : List SelectedField → Attempt (List OutputColumn)
  | [] => .ok []
  | selected :: rest => do
      let columns ← output.fieldColumns selected.name selected.field
      return columns ++ (← output.selectedColumns rest)

/-- Every carried column of the aliases under its carried name. -/
def everyColumn (output : Output) : List String → Attempt (List OutputColumn)
  | [] => .ok []
  | aliasName :: rest => do
      let columns ← output.relations.allColumns aliasName
      let distances ← output.distanceOf aliasName
      return columns.map (fun (_, term) => .plain term) ++ distances.map .plain ++ (← output.everyColumn rest)

/-- The SELECT list: the projection, or else the selected fields, or else every column. -/
def columns (block : Block σ) : Attempt (List OutputColumn) :=
  match block.projection, block.selected with
  | [], some selected => output.selectedColumns selected
  | [], none => output.everyColumn output.aliases
  | projections, _ => output.projectionsFrom 0 projections

/-- The terms of one grouping field; a whole alias is grouped by all its columns. -/
def groupKeys (field : Field) : Attempt (List Term) := do
  match ← field.resolve with
  | .whole => return (← output.relations.allColumns field.aliasName).map Prod.snd
  | .column _ | .property _ => return [← field.readTyped output.scope]

def groupBy (output : Output) : List Field → Attempt (List Term)
  | [] => .ok []
  | field :: rest => do return (← output.groupKeys field) ++ (← output.groupBy rest)

def having (dialect : Dialect) : Option (Predicate Nested) → Traced (Option (Condition Statement))
  | none => pure none
  | some predicate => do return some (← predicate.lower dialect output.aggregateScope)

/-- An alias is ordered by its id. -/
def sortKey (order : Order) : Attempt SortKey := do
  let field := order.field
  let term ← match ← field.resolve with
    | .whole => output.scope.column field.aliasName .id
    | .column _ | .property _ => do
        if let some valueType := field.declaredType then
          field.rejectContainer "ORDER BY" valueType
        field.readTyped output.scope
  return ⟨term, order.direction, order.nulls⟩

def sortKeys (output : Output) : List Order → Attempt (List SortKey)
  | [] => .ok []
  | order :: rest => do return (← output.sortKey order) :: (← output.sortKeys rest)

/-- The nearest nodes come first. -/
def orderBy (orders : List Order) : Attempt (List SortKey) := do
  let distances ← match output.nearest with
    | some (aliasName, _) => do pure [⟨← output.distance aliasName, .ascending, none⟩]
    | none => pure []
  return distances ++ (← output.sortKeys orders)

/-- A similarity search bounds the result by its number of neighbours. -/
def bounds (block : Block σ) : Option Bounds :=
  let limit := match output.nearest with
    | some (_, count) => some ((block.limit.map (min count)).getD count)
    | none => block.limit
  if limit.isNone && block.offset.isNone then none else some ⟨limit, block.offset⟩

end Output

end GraphSql
