import GraphSql.Statement.Select

namespace GraphSql

def Table.row : Table → Row
  | .nodes => .node
  | .edges => .edge
  | .embeddings => .embedding

def Source.print (schema : Schema) : Source → Fragment
  | .table base => Fragment.ofIdentifier (schema.tableName base) ++ " " ++ base.row.text
  | .relation name none => name
  | .relation name (some row) => name ++ " " ++ row.text
  | .distinct name columns row =>
      "(SELECT DISTINCT " ++ String.intercalate ", " columns ++ " FROM " ++ name ++ ") " ++ row.text

def OutputColumn.print (dialect : Dialect) : OutputColumn → Fragment
  | .plain term => term.print dialect
  | .named term name => term.print dialect ++ " AS " ++ name
  | .quoted term name => term.print dialect ++ " AS " ++ Text.quoteName name
  | .every row => row.text ++ ".*"

def SortKey.print (dialect : Dialect) (key : SortKey) : Fragment :=
  let direction := match key.direction with
    | .ascending => " ASC"
    | .descending => " DESC"
  let nulls := match key.nulls with
    | none => ""
    | some .first => " NULLS FIRST"
    | some .last => " NULLS LAST"
  key.term.print dialect ++ direction ++ nulls

variable (dialect : Dialect)

def Bounds.print (bounds : Bounds) : Fragment := dialect.limitOffset bounds.limit bounds.offset

/-- The keyword of a join. CROSS JOIN is the join whose order SQLite keeps. -/
def Join.keyword {σ : Type} (join : Join σ) : String :=
  match join.kind with
  | .left => "LEFT JOIN "
  | .inner => if join.ordered then "CROSS JOIN " else "JOIN "

def Join.print (dialect : Dialect) (schema : Schema) (gap : String) (join : Join Fragment) : Fragment :=
  gap ++ join.keyword ++ join.source.print schema ++ " ON " ++
    Condition.printConjuncts (Condition.printAll dialect join.conditions)

/-- A clause with its keyword, or nothing where it has no entries. -/
def printClause (gap keyword separator : String) : List Fragment → Fragment
  | [] => .empty
  | entries => gap ++ keyword ++ Fragment.join separator entries

def printOrderBy (gap : String) (keys : List SortKey) : Fragment :=
  printClause gap "ORDER BY " ", " (keys.map (SortKey.print dialect))

def printBounds (gap : String) : Option Bounds → Fragment
  | none => .empty
  | some bounds => gap ++ bounds.print dialect

/-- The text of a SELECT; the gap stands before every clause. -/
def Select.print (dialect : Dialect) (schema : Schema) (gap : String) (select : Select Fragment) : Fragment :=
  "SELECT " ++ Fragment.join ", " (select.columns.map (OutputColumn.print dialect)) ++
    gap ++ "FROM " ++ select.source.print schema ++
    Fragment.join "" (select.joins.map (Join.print dialect schema gap)) ++
    printClause gap "WHERE " " AND " (Condition.printAll dialect select.conditions) ++
    printClause gap "GROUP BY " ", " (select.groupBy.map (Term.print dialect)) ++
    printClause gap "HAVING " "" (select.having.toList.map (Condition.print dialect)) ++
    printOrderBy dialect gap select.orderBy ++
    printBounds dialect gap select.bounds

/-- A row set is written on one line for each member. -/
def RowSet.print (dialect : Dialect) (schema : Schema) (rowSet : RowSet Fragment) : Fragment :=
  rowSet.name ++ (if rowSet.materialized then " AS MATERIALIZED (" else " AS (") ++
    Fragment.join "\nUNION ALL\n" (rowSet.members.map (Select.print dialect schema " ")) ++ ")"

/-- The list of row sets before a SELECT. -/
def printRowSets (schema : Schema) (isRecursive : Bool) : List (RowSet Fragment) → Fragment
  | [] => .empty
  | rowSets =>
      (if isRecursive then "WITH RECURSIVE " else "WITH ") ++
        Fragment.join ",\n" (rowSets.map (RowSet.print dialect schema)) ++ "\n"

def Level.print (dialect : Dialect) (schema : Schema) (level : Level Fragment) : Fragment :=
  printRowSets dialect schema level.isRecursive level.rowSets ++ level.select.print dialect schema "\n"

def Statement.print (dialect : Dialect) (schema : Schema) (statement : Statement) : Fragment :=
  statement.fold (Level.print dialect schema)

end GraphSql
