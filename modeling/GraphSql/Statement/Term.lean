import GraphSql.Dialect.Expression

namespace GraphSql

/-- What a column is read from. -/
inductive Row where
  | node
  | edge
  | embedding
  /-- The row set that a hop starts from. -/
  | source
  /-- The row that a walk is extended from. -/
  | walk
  /-- A named row set. -/
  | relation (name : String)
  deriving DecidableEq, Repr

namespace Row

def text : Row → String
  | .node => "n"
  | .edge => "e"
  | .embedding => "emb"
  | .source => "src"
  | .walk => "r"
  | .relation name => name

def ofElement : Element → Row
  | .node => .node
  | .edge => .edge

end Row

inductive Term where
  | column (row : Row) (name : String)
  /-- A column of the only row set in reach. -/
  | bare (name : String)
  /-- An output column of a compound. -/
  | output (name : String)
  | integer (value : Int)
  | slot (slot : Slot)
  /-- The clock of the engine. -/
  | now
  | successor (term : Term)
  /-- Zero in place of null. -/
  | orZero (term : Term)
  | aggregate (function : AggregateFunction) (argument : Term)
  /-- The value at a pointer of a document. -/
  | extract (document : Term) (pointer : Pointer) (extraction : Extraction)
  | arrayLength (document : Term) (pointer : Pointer)
  | pathStart (id : Term)
  | pathExtend (path id : Term)
  | distance (metric : Metric) (embedding vector : Term)

def AggregateFunction.opening : AggregateFunction → String
  | .count => "COUNT("
  | .countDistinct => "COUNT(DISTINCT "
  | .sum => "SUM("
  | .average => "AVG("
  | .least => "MIN("
  | .greatest => "MAX("

namespace Term

def value (value : Json) : Term := .slot (.value value)

def text (value : String) : Term := .value (.string value)

def ofColumn (element : Element) (column : Column) : Term := .column (.ofElement element) column.name

def print (dialect : Dialect) : Term → Fragment
  | .column row name => row.text ++ "." ++ name
  | .bare name => name
  | .output name => Text.quoteName name
  | .integer value => Fragment.ofInt value
  | .slot place => Fragment.ofSlot place
  | .now => dialect.now
  | .successor term => print dialect term ++ " + 1"
  | .orZero term => "COALESCE(" ++ print dialect term ++ ", 0)"
  | .aggregate function argument => function.opening ++ print dialect argument ++ ")"
  | .extract document pointer extraction =>
      dialect.extract (print dialect document) pointer extraction
  | .arrayLength document pointer => dialect.arrayLength (print dialect document) pointer
  | .pathStart id => dialect.pathStart (print dialect id)
  | .pathExtend path id => dialect.pathExtend (print dialect path) (print dialect id)
  | .distance metric embedding vector =>
      dialect.distance metric (print dialect embedding) (print dialect vector)

end Term

end GraphSql
