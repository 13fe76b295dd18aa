import GraphSql.Statement.Printer

namespace GraphSql

mutual

/-- One member of a compound. -/
inductive Member where
  /-- A SELECT whose row sets stand before the whole compound. -/
  | select (select : Select Statement)
  /-- A statement in parentheses. -/
  | statement (statement : Statement)
  /-- A compound in parentheses. -/
  | grouped (body : Compound)
  /-- A compound that is read like a table. -/
  | wrapped (body : Compound)

/-- Members combined from left to right, with an order and bounds for all of them together. -/
inductive Compound where
  | mk (first : Member) (rest : List (SetOperator × Member)) (orderBy : List SortKey) (bounds : Option Bounds)

end

namespace Compound

def first : Compound → Member
  | .mk first _ _ _ => first

def rest : Compound → List (SetOperator × Member)
  | .mk _ rest _ _ => rest

def orderBy : Compound → List SortKey
  | .mk _ _ orderBy _ => orderBy

def bounds : Compound → Option Bounds
  | .mk _ _ _ bounds => bounds

end Compound

mutual

def Member.print (dialect : Dialect) (schema : Schema) : Member → Fragment
  | .select body => (body.map (Statement.print dialect schema)).print dialect schema "\n"
  | .statement body => (body.print dialect schema).parenthesized
  | .grouped body => (Compound.print dialect schema body).parenthesized
  | .wrapped body => "SELECT * FROM " ++ (Compound.print dialect schema body).parenthesized

def Compound.print (dialect : Dialect) (schema : Schema) : Compound → Fragment
  | .mk first rest orderBy bounds =>
      Member.print dialect schema first ++ Compound.printRest dialect schema rest ++
        printOrderBy dialect "\n" orderBy ++ printBounds dialect "\n" bounds

def Compound.printRest (dialect : Dialect) (schema : Schema) : List (SetOperator × Member) → Fragment
  | [] => .empty
  | (op, member) :: rest =>
      "\n" ++ op.keyword ++ "\n" ++ Member.print dialect schema member ++ Compound.printRest dialect schema rest

end

/-- A compound with the row sets that its members read. -/
structure CompoundStatement where
  rowSets : List (RowSet Statement)
  body : Compound

def CompoundStatement.print (dialect : Dialect) (schema : Schema) (statement : CompoundStatement) : Fragment :=
  printRowSets dialect schema false (statement.rowSets.map (RowSet.map (Statement.print dialect schema))) ++
    statement.body.print dialect schema

end GraphSql
