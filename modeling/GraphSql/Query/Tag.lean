import GraphSql.Named

namespace GraphSql

inductive Operand.Tag where
  | literal
  | list
  | parameter
  deriving DecidableEq, Repr

instance : Named Operand.Tag where
  members := [.literal, .list, .parameter]
  name
    | .literal => "literal"
    | .list => "list"
    | .parameter => "parameter"

inductive Predicate.Tag where
  | comparison
  | text
  | nullCheck
  | between
  | array
  | object
  | aggregate
  | and
  | or
  | not
  | subquery
  | inSubquery
  | similarity
  deriving DecidableEq, Repr

instance : Named Predicate.Tag where
  members :=
    [.comparison, .text, .nullCheck, .between, .array, .object, .aggregate, .and, .or, .not,
      .subquery, .inSubquery, .similarity]
  name
    | .comparison => "comparison"
    | .text => "string_op"
    | .nullCheck => "null_check"
    | .between => "between"
    | .array => "array_op"
    | .object => "object_op"
    | .aggregate => "aggregate_comparison"
    | .and => "and"
    | .or => "or"
    | .not => "not"
    | .subquery => "exists"
    | .inSubquery => "in_subquery"
    | .similarity => "vector_similarity"

inductive ProjectionSource.Tag where
  | field
  | aggregate
  deriving DecidableEq, Repr

instance : Named ProjectionSource.Tag where
  members := [.field, .aggregate]
  name
    | .field => "field"
    | .aggregate => "aggregate"

inductive TemporalMode.Tag where
  | current
  | asOf
  | includeEnded
  | includeTombstones
  deriving DecidableEq, Repr

instance : Named TemporalMode.Tag where
  members := [.current, .asOf, .includeEnded, .includeTombstones]
  name
    | .current => "current"
    | .asOf => "as_of"
    | .includeEnded => "include_ended"
    | .includeTombstones => "include_tombstones"

inductive SetOperand.Tag where
  | query
  | operation
  deriving DecidableEq, Repr

instance : Named SetOperand.Tag where
  members := [.query, .operation]
  name
    | .query => "query"
    | .operation => "set_operation"

end GraphSql
