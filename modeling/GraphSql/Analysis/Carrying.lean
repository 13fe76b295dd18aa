import GraphSql.Analysis.Validation

namespace GraphSql.Block

variable {σ : Type}

variable (block : Block σ)

/-- The predicates that are evaluated at one place. -/
def placedAt (placements : List (Option String)) (place : Option String) : List (Predicate σ) :=
  (block.filters.zip placements).filterMap fun (filter, placement) =>
    if placement = place then some filter.predicate else none

/-- The output columns are known, so that others need not be carried. -/
def isPruned : Bool := block.selected.isSome || !block.groupBy.isEmpty || block.having.isSome || block.hasAggregate

/-- The field that a projection reads; counting an alias reads its id only, which is carried
anyway. -/
def projectedField? (projection : Projection) : Option Field :=
  match projection.source with
  | .field target => some target
  | .aggregate expression =>
      if expression.field.denotes .whole then none else some expression.field

/-- The fields that the final SELECT reads. -/
def finalFields (placements : List (Option String)) : List Field :=
  block.projection.filterMap projectedField? ++ block.groupBy ++ block.havingFields ++
    block.orderBy.map Order.field ++ block.selectedFields.map SelectedField.field ++
    (block.placedAt placements none).flatMap Predicate.fields

/-- The columns in which a field is found. -/
def columnsOf (field : Field) : List Column :=
  match field.target with
  | .ok .whole => Column.ofElement (block.elementOf field.aliasName)
  | .ok (.column column) => [column]
  | .ok (.property _) => [.props]
  | .error _ => []

/-- The final SELECT reads the column of the alias. -/
def isRead (placements : List (Option String)) (aliasName : String) (column : Column) : Bool :=
  (block.finalFields placements).any fun field =>
    field.aliasName == aliasName && (block.columnsOf field).contains column

def everyColumn (aliasName : String) : List Column := Column.ofElement (block.elementOf aliasName)

/-- The columns that other row sets are joined by, and those that the final SELECT reads. -/
def neededColumns (placements : List (Option String)) (aliasName : String) : List Column :=
  Column.all.filter fun column =>
    (Column.joinKeys (block.elementOf aliasName)).contains column || block.isRead placements aliasName column

end GraphSql.Block
