import GraphSql.Statement.Term

namespace GraphSql

/-- The name under which a row set carries a column of an alias. -/
def carriedName (aliasName : String) (column : Column) : String := aliasName ++ "_" ++ column.name

/-- The name under which a row set carries the distance of an alias. -/
def distanceName (aliasName : String) : String := aliasName ++ "_distance"

/-- The name of the row set of an alias; the tag keeps branches of a compound apart. -/
def rowSetName (tag aliasName : String) : String := tag ++ "cte_" ++ aliasName

/-- How the columns of aliases are read. -/
structure Scope where
  column : String → Column → Attempt Term
  /-- Aggregates may be used. -/
  aggregates : Bool := false

/-- The alias has the column. -/
def checkColumn (aliasName : String) (element : Element) (column : Column) : Attempt Unit :=
  if column.existsOn element then .ok ()
  else .error (.unsupported (.absentColumn column element aliasName))

/-- The scope inside of a row set, where the tables of some aliases are in reach. -/
def Scope.ofTables (tables : List (String × Element)) : Scope where
  column aliasName column :=
    match tables.find? (·.1 == aliasName) with
    | none =>
        let visible := String.intercalate ", " (tables.map Prod.fst)
        .error (.invariant "predicate" s!"alias '{aliasName}' is not visible in this CTE" s!"visible: {visible}")
    | some (_, element) => do
        checkColumn aliasName element column
        return .ofColumn element column

/-- An alias whose columns a row set carries. -/
structure Carried where
  aliasName : String
  relation : String
  element : Element
  columns : List Column
  deriving DecidableEq, Repr

/-- The aliases that the final SELECT can read, and those that it cannot. -/
structure Relations where
  carried : List Carried
  /-- Each with the reason. -/
  unavailable : List (String × Unsupported) := []
  deriving DecidableEq, Repr

namespace Relations

def find? (relations : Relations) (aliasName : String) : Option Carried :=
  relations.carried.find? (·.aliasName == aliasName)

def lookup (relations : Relations) (aliasName : String) : Attempt Carried :=
  match relations.unavailable.find? (·.1 == aliasName) with
  | some (_, reason) => .error (.unsupported reason)
  | none =>
      match relations.find? aliasName with
      | some carried => .ok carried
      | none => .error (.unsupported (.unknownAlias aliasName))

def term (carried : Carried) (column : Column) : Term :=
  .column (.relation carried.relation) (carriedName carried.aliasName column)

/-- Every carried column of an alias with the term that reads it. -/
def allColumns (relations : Relations) (aliasName : String) : Attempt (List (Column × Term)) := do
  let carried ← relations.lookup aliasName
  return carried.columns.map fun column => (column, term carried column)

def column (relations : Relations) (aliasName : String) (column : Column) : Attempt Term := do
  let carried ← relations.lookup aliasName
  checkColumn aliasName carried.element column
  if carried.columns.contains column then return term carried column
  else
    let mem := String.intercalate ", " (carried.columns.map Column.name)
    .error (.invariant "column_pruning"
      s!"column '{column.name}' of alias '{aliasName}' is referenced but was pruned"
      s!"carried: {mem}")

def scope (relations : Relations) (aggregates : Bool) : Scope where
  column := relations.column
  aggregates

end Relations

end GraphSql
