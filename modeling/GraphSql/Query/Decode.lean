import GraphSql.Json.Decode
import GraphSql.Query.SetOperation
import GraphSql.Query.Tag

namespace GraphSql

open Operand

open Json (Reading asString asBool asName asTag asList asUInt64 asUInt32 asInt64 asDouble asSingle)

def Pointer.ofJson (json : Json) : Option Pointer := do
  let text ← asString json
  (Pointer.parse text).toOption

def Field.ofJson (reading : Reading) (json : Json) : Option Field := do
  return {
    aliasName := ← json.need "alias" asString
    path := ← json.getOr "path" [] (asList asString)
    pointer := ← json.maybe "json_pointer" Pointer.ofJson
    valueType := ← json.maybe "value_type" (asName reading) }

def Operand.ofJson (reading : Reading) (json : Json) : Option Operand := do
  let tag : Tag ← json.need "kind" (asTag reading)
  let valueType ← json.maybe "value_type" (asName .lenient)
  match tag with
  | .literal => return .literal (← json.member? "value") valueType
  | .list => return .list (← json.need "values" (asList some)) valueType
  | .parameter => return .parameter (← json.need "name" asString) valueType

def Aggregate.ofJson (reading : Reading) (json : Json) : Option Aggregate := do
  return {
    function := ← json.need "function" (asName reading)
    field := ← json.need "field" (Field.ofJson reading) }

def Similarity.ofJson (reading : Reading) (json : Json) : Option Similarity := do
  return {
    field := ← json.need "field" (Field.ofJson reading)
    embedding := ← json.need "query_embedding" (asList asSingle)
    metric := ← json.need "metric" (asName reading)
    count := ← json.need "k" asUInt64
    minScore := ← json.maybe "min_score" asDouble }

def Start.ofJson (json : Json) : Option Start := do
  return {
    aliasName := ← json.need "alias" asString
    kinds := ← json.need "kinds" (asList asString)
    includeSubclasses := ← json.getOr "include_subclasses" false asBool }

def WalkSpec.ofJson (reading : Reading) (json : Json) : Option WalkSpec := do
  return {
    minDepth := ← json.need "min_depth" asUInt32
    maxDepth := ← json.need "max_depth" asInt64
    cyclePolicy := ← json.getOr "cycle_policy" .prevent (asName reading)
    pathAlias := ← json.maybe "path_alias" asString
    depthAlias := ← json.maybe "depth_alias" asString }

def Traversal.ofJson (reading : Reading) (json : Json) : Option Traversal := do
  return {
    edgeAlias := ← json.need "edge_alias" asString
    edgeKinds := ← json.need "edge_kinds" (asList asString)
    inverseEdgeKinds := ← json.getOr "inverse_edge_kinds" [] (asList asString)
    direction := ← json.getOr "direction" .outward (asName reading)
    nodeAlias := ← json.need "node_alias" asString
    nodeKinds := ← json.need "node_kinds" (asList asString)
    joinFrom := ← json.need "join_from_alias" asString
    optional := ← json.getOr "optional" false asBool
    walk := ← json.maybe "variable_length" (WalkSpec.ofJson reading) }

def ProjectionSource.ofJson (reading : Reading) (json : Json) : Option ProjectionSource := do
  let tag : Tag ← json.need "type" (asTag reading)
  match tag with
  | .field => return .field (← json.need "field" (Field.ofJson .lenient))
  | .aggregate => return .aggregate (← json.need "aggregate" (Aggregate.ofJson .lenient))

def Projection.ofJson (reading : Reading) (json : Json) : Option Projection := do
  return {
    name := ← json.need "output_name" asString
    source := ← json.need "source" (ProjectionSource.ofJson reading) }

def Order.ofJson (reading : Reading) (json : Json) : Option Order := do
  return {
    field := ← json.need "field" (Field.ofJson reading)
    direction := ← json.getOr "direction" .ascending (asName reading)
    nulls := ← json.maybe "nulls" (asName reading) }

def TemporalMode.ofJson (reading : Reading) (json : Json) : Option TemporalMode := do
  let tag : Tag ← json.need "mode" (asTag reading)
  match tag with
  | .current => return .current
  | .asOf => return .asOf (← json.need "timestamp" asString)
  | .includeEnded => return .includeEnded
  | .includeTombstones => return .includeTombstones

def SelectedField.ofJson (reading : Reading) (json : Json) : Option SelectedField := do
  return {
    field := ← json.need "field" (Field.ofJson reading)
    name := ← json.need "output_name" asString }

mutual

def Predicate.ofJson (reading : Reading) (json : Json) : Option (Predicate Query) := do
  let tag : Predicate.Tag ← json.need "type" (asTag reading)
  match tag with
  | .comparison =>
      return .comparison (← json.need "field" (Field.ofJson .lenient))
        (← json.need "op" (asName .lenient)) (← json.need "value" (ofJson .lenient))
  | .text =>
      return .text (← json.need "field" (Field.ofJson .lenient))
        (← json.need "op" (asName .lenient)) (← json.need "pattern" (ofJson .lenient))
  | .nullCheck =>
      return .nullCheck (← json.need "field" (Field.ofJson .lenient)) (← json.need "op" (asName .lenient))
  | .between =>
      return .between (← json.need "field" (Field.ofJson .lenient)) (← json.need "lower" (ofJson .lenient))
        (← json.need "upper" (ofJson .lenient))
  | .array =>
      return .array (← json.need "field" (Field.ofJson .lenient)) (← json.need "op" (asName .lenient))
        (← json.getOr "values" [] (asList (ofJson .lenient)))
  | .object =>
      return .object (← json.need "field" (Field.ofJson .lenient))
        (← json.need "op" (asName .lenient)) (← json.need "pointer" Pointer.ofJson)
        (← json.maybe "value" (ofJson .lenient))
  | .aggregate =>
      return .aggregate (← json.need "aggregate" (Aggregate.ofJson .lenient))
        (← json.need "op" (asName .lenient)) (← json.need "value" (ofJson .lenient))
  | .and =>
      return .and (← json.needChildren "operands" fun value _ => Predicate.ofJson .lenient value)
  | .or =>
      return .or (← json.needChildren "operands" fun value _ => Predicate.ofJson .lenient value)
  | .not =>
      return .not (← json.needChild "operand" fun value _ => Predicate.ofJson .lenient value)
  | .subquery =>
      return .subquery (← json.needChild "subquery" fun value _ => Query.ofJson .lenient value)
        (← json.getOr "negated" false asBool)
  | .inSubquery =>
      return .inSubquery (← json.need "field" (Field.ofJson .lenient))
        (← json.needChild "subquery" fun value _ => Query.ofJson .lenient value)
        (← json.getOr "negated" false asBool)
  | .similarity => return .similarity (← Similarity.ofJson .lenient json)
termination_by sizeOf json

def Filter.ofJson (reading : Reading) (json : Json) : Option (Filter Query) := do
  return {
    aliasName := ← json.need "target_alias" asString
    element := ← json.getOr "target_type" .node (asName reading)
    predicate := ← json.needChild "expression" fun value _ => Predicate.ofJson reading value }
termination_by sizeOf json

def Query.ofJson (reading : Reading) (json : Json) : Option Query := do
  return .mk {
    graphId := ← json.maybe "graph_id" asString
    start := ← json.need "start" Start.ofJson
    traversals := ← json.getOr "traversals" [] (asList (Traversal.ofJson reading))
    filters := ← json.childrenOrNone "predicates" fun value _ => Filter.ofJson reading value
    projection := ← json.getOr "projection" [] (asList (Projection.ofJson reading))
    groupBy := ← json.getOr "group_by" [] (asList (Field.ofJson reading))
    having := ← json.maybeChild "having" fun value _ => Predicate.ofJson reading value
    orderBy := ← json.getOr "order_by" [] (asList (Order.ofJson reading))
    limit := ← json.maybe "limit" asUInt64
    offset := ← json.maybe "offset" asUInt64
    temporal := ← json.getOr "temporal_mode" .current (TemporalMode.ofJson reading)
    selected := ← json.maybe "selective_fields" (asList (SelectedField.ofJson reading)) }
termination_by sizeOf json

end

mutual

def SetOperand.ofJson (reading : Reading) (json : Json) : Option SetOperand := do
  let tag : SetOperand.Tag ← json.need "type" (asTag reading)
  match tag with
  | .query => return .query (← json.need "query" (Query.ofJson .lenient))
  | .operation =>
      return .operation (← json.needChild "operation" fun value _ => SetOperation.ofJson .lenient value)
termination_by sizeOf json

def SetOperation.ofJson (reading : Reading) (json : Json) : Option SetOperation := do
  return {
    operator := ← json.need "op" (asName reading)
    left := ← json.needChild "left" fun value _ => SetOperand.ofJson reading value
    right := ← json.needChild "right" fun value _ => SetOperand.ofJson reading value
    orderBy := ← json.getOr "order_by" [] (asList (Order.ofJson reading))
    limit := ← json.maybe "limit" asUInt64
    offset := ← json.maybe "offset" asUInt64 }
termination_by sizeOf json

end

end GraphSql
