import GraphSql.CompileError
import GraphSql.Dialect.Path
import GraphSql.Fragment

namespace GraphSql.Dialect

/-- The JSON value at a pointer, in PostgreSQL. -/
def postgresValue (document : Fragment) (pointer : Pointer) : Fragment :=
  "(" ++ document ++ " #> " ++ pathLiteral .postgres pointer ++ ")"

/-- The type of the value at a pointer, in SQLite. -/
def sqliteType (document : Fragment) (pointer : Pointer) : Fragment :=
  "json_type(" ++ document ++ ", " ++ pathLiteral .sqlite pointer ++ ")"

variable (dialect : Dialect)

/-- The value at a pointer. SQLite has the right type already, PostgreSQL needs a cast. -/
def extract (document : Fragment) (pointer : Pointer) (extraction : Extraction) : Fragment :=
  match dialect with
  | .sqlite => "json_extract(" ++ document ++ ", " ++ pathLiteral .sqlite pointer ++ ")"
  | .postgres =>
      let text := "(" ++ document ++ " #>> " ++ pathLiteral .postgres pointer ++ ")"
      match extraction with
      | .text => text
      | .number => text ++ "::numeric"
      | .boolean => text ++ "::boolean"
      | .date => text ++ "::timestamptz"
      | .raw => postgresValue document pointer

/-- The length of the array at a pointer, null where there is none. -/
def arrayLength (document : Fragment) (pointer : Pointer) : Fragment :=
  match dialect with
  | .sqlite => "json_array_length(" ++ document ++ ", " ++ pathLiteral .sqlite pointer ++ ")"
  | .postgres =>
      let value := postgresValue document pointer
      "(CASE WHEN jsonb_typeof(" ++ value ++ ") = 'array' THEN jsonb_array_length(" ++ value ++ ") END)"

/-- A value with the type that PostgreSQL needs to build a document from it. -/
def postgresTyped (valueType : ValueType) (value : Fragment) : Fragment :=
  match valueType with
  | .number => value ++ "::numeric"
  | .boolean => value ++ "::boolean"
  | .string | .date | .unknown | .array | .object | .embedding => value ++ "::text"

/-- The array at a pointer has the value as an element. -/
def arrayContains (document : Fragment) (pointer : Pointer) (valueType : ValueType) (value : Fragment) : Fragment :=
  match dialect with
  | .sqlite =>
      "EXISTS (SELECT 1 FROM json_each(" ++ document ++ ", " ++ pathLiteral .sqlite pointer ++
        ") WHERE json_each.value = " ++ value ++ ")"
  | .postgres =>
      postgresValue document pointer ++ " @> jsonb_build_array(" ++ postgresTyped valueType value ++ ")"

def arrayContainsAll (document : Fragment) (pointer : Pointer) (valueType : ValueType)
    (values : List Fragment) : Fragment :=
  match dialect with
  | .sqlite =>
      (Fragment.join " AND " (values.map (arrayContains .sqlite document pointer valueType))).parenthesized
  | .postgres =>
      postgresValue document pointer ++ " @> jsonb_build_array(" ++
        Fragment.join ", " (values.map (postgresTyped valueType)) ++ ")"

def arrayContainsAny (document : Fragment) (pointer : Pointer) (valueType : ValueType)
    (values : List Fragment) : Fragment :=
  match dialect with
  | .sqlite =>
      "EXISTS (SELECT 1 FROM json_each(" ++ document ++ ", " ++ pathLiteral .sqlite pointer ++
        ") WHERE json_each.value IN (" ++ Fragment.join ", " values ++ "))"
  | .postgres =>
      (Fragment.join " OR " (values.map (arrayContains .postgres document pointer valueType))).parenthesized

/-- The document has a value at the pointer, null included. -/
def hasPath (document : Fragment) (pointer : Pointer) : Fragment :=
  match dialect with
  | .sqlite => sqliteType document pointer ++ " IS NOT NULL"
  | .postgres => postgresValue document pointer ++ " IS NOT NULL"

/-- The value at the pointer is the given one. -/
def pathEquals (document : Fragment) (pointer : Pointer) (valueType : ValueType) (value : Fragment) : Fragment :=
  dialect.extract document pointer valueType.extraction ++ " = " ++ value

/-- There is no value at the pointer; the JSON null counts as none. -/
def pathIsNull (document : Fragment) (pointer : Pointer) (negated : Bool) : Fragment :=
  match dialect, negated with
  | .sqlite, false =>
      let type := sqliteType document pointer
      "(" ++ type ++ " IS NULL OR " ++ type ++ " = 'null')"
  | .sqlite, true =>
      let type := sqliteType document pointer
      "(" ++ type ++ " IS NOT NULL AND " ++ type ++ " <> 'null')"
  | .postgres, false =>
      let value := postgresValue document pointer
      "(" ++ value ++ " IS NULL OR jsonb_typeof(" ++ value ++ ") = 'null')"
  | .postgres, true =>
      let value := postgresValue document pointer
      "(" ++ value ++ " IS NOT NULL AND jsonb_typeof(" ++ value ++ ") <> 'null')"

/-- A match in which letter case does not count and a backslash escapes. -/
def ilike (text pattern : Fragment) : Fragment :=
  match dialect with
  | .sqlite => text ++ " LIKE " ++ pattern ++ " ESCAPE '\\'"
  | .postgres => text ++ " ILIKE " ++ pattern ++ " ESCAPE '\\'"

/-- A match in which letter case counts. SQLite has only GLOB for it. -/
def like (text pattern : Fragment) : Fragment :=
  match dialect with
  | .sqlite => text ++ " GLOB " ++ pattern
  | .postgres => text ++ " LIKE " ++ pattern

/-- What a pattern of the caller goes through before it is matched. -/
def likeTransform : Dialect → Transform
  | .sqlite => .likeToGlob
  | .postgres => .identity

/-- The visited path of a walk that has not left its first node. -/
def pathStart (id : Fragment) : Fragment :=
  match dialect with
  | .sqlite => "'|' || " ++ id ++ " || '|'"
  | .postgres => "ARRAY[" ++ id ++ "]"

def pathExtend (path id : Fragment) : Fragment :=
  match dialect with
  | .sqlite => path ++ " || " ++ id ++ " || '|'"
  | .postgres => path ++ " || " ++ id

/-- The node is not on the visited path. -/
def offPath (path id : Fragment) : Fragment :=
  match dialect with
  | .sqlite => "instr(" ++ path ++ ", '|' || " ++ id ++ " || '|') = 0"
  | .postgres => id ++ " <> ALL(" ++ path ++ ")"

def now : Dialect → Fragment
  | .sqlite => "strftime('%Y-%m-%dT%H:%M:%fZ', 'now')"
  | .postgres => "NOW()"

/-- The engine can compute distances of this metric. -/
def checkMetric (metric : Metric) : Attempt Unit :=
  if dialect.capabilities.metrics.contains metric then .ok ()
  else .error (.unsupported (.unsupportedMetric metric dialect))

/-- The distance between an embedding and the vector that is searched for. -/
def distance (metric : Metric) (embedding vector : Fragment) : Fragment :=
  match dialect, metric with
  | .sqlite, .cosine => "vec_distance_cosine(" ++ embedding ++ ", vec_f32(" ++ vector ++ "))"
  | .sqlite, .euclidean => "vec_distance_L2(" ++ embedding ++ ", vec_f32(" ++ vector ++ "))"
  | .sqlite, .innerProduct => "vec_distance_ip(" ++ embedding ++ ", vec_f32(" ++ vector ++ "))"
  | .postgres, .cosine => "(" ++ embedding ++ " <=> " ++ vector ++ "::vector)"
  | .postgres, .euclidean => "(" ++ embedding ++ " <-> " ++ vector ++ "::vector)"
  | .postgres, .innerProduct => "(" ++ embedding ++ " <#> " ++ vector ++ "::vector)"

/-- Components of a vector are positional and have no fraction unless they need one; of two equally
near decimals the greater one is written. -/
def componentLayout : Decimal.Layout where
  positional _ := true
  tie := .upward
  keepFraction := false
  infinity := some "inf"
  notANumber := some "NaN"

/-- A vector as both engines read it. -/
def embeddingText (embedding : List Float32) : String :=
  let components := embedding.map fun component => (componentLayout.write (Decimal.classifySingle component)).getD ""
  "[" ++ String.intercalate "," components ++ "]"

/-- The greatest number of rows that an engine takes. -/
def greatestBound : Nat := Int64.maxValue.toInt.toNat

def boundText (bound : UInt64) : String := toString (min bound.toNat greatestBound)

/-- The bounds of a result. SQLite takes an offset only after a limit, and -1 for no limit. -/
def limitOffset (limit offset : Option UInt64) : String :=
  match dialect, limit, offset with
  | .sqlite, some limit, none => "LIMIT " ++ boundText limit
  | .sqlite, none, none => "LIMIT -1"
  | .sqlite, some limit, some offset =>
      "LIMIT " ++ boundText limit ++ " OFFSET " ++ boundText offset
  | .sqlite, none, some offset => "LIMIT -1 OFFSET " ++ boundText offset
  | .postgres, some limit, none => "LIMIT " ++ boundText limit
  | .postgres, none, none => ""
  | .postgres, some limit, some offset =>
      "LIMIT " ++ boundText limit ++ " OFFSET " ++ boundText offset
  | .postgres, none, some offset => "OFFSET " ++ boundText offset

end GraphSql.Dialect
