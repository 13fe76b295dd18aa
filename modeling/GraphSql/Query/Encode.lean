import GraphSql.Query.SetOperation
import GraphSql.Query.Tag

namespace GraphSql

namespace Json

def ofName {α : Type} [Named α] (value : α) : Json := .string (Named.name value)

end Json

def Pointer.toJson (pointer : Pointer) : Json := .string pointer.display

def Field.toJson (field : Field) : Json :=
  .ofMembers [("alias", .string field.aliasName), ("path", .ofStrings field.path),
      ("json_pointer", .ofOption Pointer.toJson field.pointer),
      ("value_type", .ofOption .ofName field.valueType)]

def Operand.toJson : Operand → Json
  | .literal value valueType =>
      .ofMembers [("kind", .ofName Tag.literal), ("value", value), ("value_type", .ofOption .ofName valueType)]
  | .list values valueType =>
      .ofMembers [("kind", .ofName Tag.list), ("values", .array values), ("value_type", .ofOption .ofName valueType)]
  | .parameter name valueType =>
      .ofMembers [("kind", .ofName Tag.parameter), ("name", .string name), ("value_type", .ofOption .ofName valueType)]

def Aggregate.toJson (aggregate : Aggregate) : Json :=
  .ofMembers [("function", .ofName aggregate.function), ("field", aggregate.field.toJson)]

mutual

/-- The form of a predicate whose nested queries are already written. -/
def Predicate.toJson : Predicate Json → Json
  | .comparison field op value =>
      .ofMembers [("type", .ofName Tag.comparison), ("field", field.toJson), ("op", .ofName op),
          ("value", value.toJson)]
  | .text field op pattern =>
      .ofMembers [("type", .ofName Tag.text), ("field", field.toJson), ("op", .ofName op),
          ("pattern", pattern.toJson)]
  | .nullCheck field op =>
      .ofMembers [("type", .ofName Tag.nullCheck), ("field", field.toJson), ("op", .ofName op)]
  | .between field lower upper =>
      .ofMembers [("type", .ofName Tag.between), ("field", field.toJson), ("lower", lower.toJson),
          ("upper", upper.toJson)]
  | .array field op values =>
      .ofMembers [("type", .ofName Tag.array), ("field", field.toJson), ("op", .ofName op),
          ("values", .array (values.map Operand.toJson))]
  | .object field op pointer value =>
      .ofMembers [("type", .ofName Tag.object), ("field", field.toJson), ("op", .ofName op),
          ("pointer", pointer.toJson), ("value", .ofOption Operand.toJson value)]
  | .aggregate expression op value =>
      .ofMembers [("type", .ofName Tag.aggregate), ("aggregate", expression.toJson),
          ("op", .ofName op), ("value", value.toJson)]
  | .and operands =>
      .ofMembers [("type", .ofName Tag.and), ("operands", .array (Predicate.toJsonAll operands))]
  | .or operands =>
      .ofMembers [("type", .ofName Tag.or), ("operands", .array (Predicate.toJsonAll operands))]
  | .not operand =>
      .ofMembers [("type", .ofName Tag.not), ("operand", Predicate.toJson operand)]
  | .subquery query negated =>
      .ofMembers [("type", .ofName Tag.subquery), ("subquery", query), ("negated", .bool negated)]
  | .inSubquery field query negated =>
      .ofMembers [("type", .ofName Tag.inSubquery), ("field", field.toJson), ("subquery", query),
          ("negated", .bool negated)]
  | .similarity search =>
      .ofMembers [("type", .ofName Tag.similarity), ("field", search.field.toJson),
          ("query_embedding", .array (search.embedding.map Json.ofSingle)),
          ("metric", .ofName search.metric), ("k", .ofUInt64 search.count),
          ("min_score", .ofOption .ofDouble search.minScore)]

def Predicate.toJsonAll : List (Predicate Json) → List Json
  | [] => []
  | operand :: rest => Predicate.toJson operand :: Predicate.toJsonAll rest

end

def Start.toJson (start : Start) : Json :=
  .ofMembers [("alias", .string start.aliasName), ("kinds", .ofStrings start.kinds),
      ("include_subclasses", .bool start.includeSubclasses)]

def WalkSpec.toJson (walk : WalkSpec) : Json :=
  .ofMembers [("min_depth", .ofNat walk.minDepth.toNat), ("max_depth", .ofInt walk.maxDepth.toInt),
      ("cycle_policy", .ofName walk.cyclePolicy), ("path_alias", .ofOption .string walk.pathAlias),
      ("depth_alias", .ofOption .string walk.depthAlias)]

def Traversal.toJson (hop : Traversal) : Json :=
  .ofMembers [("edge_alias", .string hop.edgeAlias), ("edge_kinds", .ofStrings hop.edgeKinds),
      ("inverse_edge_kinds", .ofStrings hop.inverseEdgeKinds), ("direction", .ofName hop.direction),
      ("node_alias", .string hop.nodeAlias), ("node_kinds", .ofStrings hop.nodeKinds),
      ("join_from_alias", .string hop.joinFrom), ("optional", .bool hop.optional),
      ("variable_length", .ofOption WalkSpec.toJson hop.walk)]

def Filter.toJson (filter : Filter Json) : Json :=
  .ofMembers [("target_alias", .string filter.aliasName), ("target_type", .ofName filter.element),
      ("expression", filter.predicate.toJson)]

def ProjectionSource.toJson : ProjectionSource → Json
  | .field target => .ofMembers [("type", .ofName Tag.field), ("field", target.toJson)]
  | .aggregate expression =>
      .ofMembers [("type", .ofName Tag.aggregate), ("aggregate", expression.toJson)]

def Projection.toJson (projection : Projection) : Json :=
  .ofMembers [("output_name", .string projection.name), ("source", projection.source.toJson)]

def Order.toJson (order : Order) : Json :=
  .ofMembers [("field", order.field.toJson), ("direction", .ofName order.direction),
      ("nulls", .ofOption .ofName order.nulls)]

def TemporalMode.toJson : TemporalMode → Json
  | .current => .ofMembers [("mode", .ofName Tag.current)]
  | .asOf timestamp => .ofMembers [("mode", .ofName Tag.asOf), ("timestamp", .string timestamp)]
  | .includeEnded => .ofMembers [("mode", .ofName Tag.includeEnded)]
  | .includeTombstones => .ofMembers [("mode", .ofName Tag.includeTombstones)]

def SelectedField.toJson (selected : SelectedField) : Json :=
  .ofMembers [("field", selected.field.toJson), ("output_name", .string selected.name)]

/-- The form of a block whose nested queries are already written. -/
def Block.toJson (block : Block Json) : Json :=
  .ofMembers [("graph_id", .ofOption .string block.graphId), ("start", block.start.toJson),
      ("traversals", .array (block.traversals.map Traversal.toJson)),
      ("predicates", .array (block.filters.map Filter.toJson)),
      ("projection", .array (block.projection.map Projection.toJson)),
      ("group_by", .array (block.groupBy.map Field.toJson)),
      ("having", .ofOption Predicate.toJson block.having),
      ("order_by", .array (block.orderBy.map Order.toJson)),
      ("limit", .ofOption .ofUInt64 block.limit),
      ("offset", .ofOption .ofUInt64 block.offset),
      ("temporal_mode", block.temporal.toJson),
      ("selective_fields", .ofOption (fun fields => .array (fields.map SelectedField.toJson)) block.selected)]

def Query.toJson (query : Query) : Json := query.fold Block.toJson

/-- The form of a predicate whose nested queries are queries. -/
def Predicate.form (predicate : Predicate Query) : Json := (predicate.map Query.toJson).toJson

mutual

def SetOperand.toJson : SetOperand → Json
  | .query query => .ofMembers [("type", .ofName SetOperand.Tag.query), ("query", query.toJson)]
  | .operation operation =>
      .ofMembers [("type", .ofName SetOperand.Tag.operation), ("operation", SetOperation.toJson operation)]

def SetOperation.toJson : SetOperation → Json
  | ⟨op, left, right, orderBy, limit, offset⟩ =>
      .ofMembers [("op", .ofName op), ("left", SetOperand.toJson left),
          ("right", SetOperand.toJson right), ("order_by", .array (orderBy.map Order.toJson)),
          ("limit", .ofOption .ofUInt64 limit), ("offset", .ofOption .ofUInt64 offset)]

end

end GraphSql
