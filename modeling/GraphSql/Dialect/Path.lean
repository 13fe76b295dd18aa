import GraphSql.Dialect
import GraphSql.Pointer
import GraphSql.Text.Blank
import GraphSql.Text.Case
import GraphSql.Text.Quoted

namespace GraphSql.Dialect

/-- A key that may stand in a SQLite path without quotes. -/
def isPlainKey : List Char → Bool
  | [] => false
  | first :: rest =>
      (first.isAlpha || first == '_') && rest.all fun c => c.isAlphanum || c == '_'

/-- One step of a SQLite path: an array index in brackets, or a key after a point. -/
def sqliteStep (segment : String) : List Char :=
  if Pointer.isArrayIndex segment then '[' :: (segment.toList ++ [']'])
  else if isPlainKey segment.toList then '.' :: segment.toList
  else '.' :: '"' :: (segment.toList ++ ['"'])

def sqlitePath (pointer : Pointer) : List Char := '$' :: pointer.segments.flatMap sqliteStep

/-- An element of a PostgreSQL array has to be quoted. -/
def needsQuotes (segment : String) : Bool :=
  segment.isEmpty || Text.lowerAscii segment == "null" || segment.toList.any fun c =>
      c == ',' || c == '\x7b' || c == '\x7d' || c == '"' || c == '\\' || Text.isBlank c

/-- A quote or a backslash inside of quotes has a backslash before it. -/
def postgresElement (segment : String) : List Char :=
  if needsQuotes segment then
    '"' :: (segment.toList.flatMap (fun c => if c == '"' || c == '\\' then ['\\', c] else [c]) ++ ['"'])
  else segment.toList

def postgresPath (pointer : Pointer) : List Char :=
  '\x7b' :: (List.intercalate [','] (pointer.segments.map postgresElement) ++ ['\x7d'])

def pathText : Dialect → Pointer → String
  | .sqlite, pointer => String.ofList (sqlitePath pointer)
  | .postgres, pointer => String.ofList (postgresPath pointer)

/-- The path as a string literal of SQL. -/
def pathLiteral (dialect : Dialect) (pointer : Pointer) : String := Text.quoteLiteral (dialect.pathText pointer)

end GraphSql.Dialect
