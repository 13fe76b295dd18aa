import GraphSql.ValueType

namespace GraphSql

inductive Comparison where
  | equal
  | notEqual
  | greater
  | greaterOrEqual
  | less
  | lessOrEqual
  | isIn
  | notIn
  deriving DecidableEq, Repr

instance : Named Comparison where
  members := [.equal, .notEqual, .greater, .greaterOrEqual, .less, .lessOrEqual, .isIn, .notIn]
  name
    | .equal => "eq"
    | .notEqual => "neq"
    | .greater => "gt"
    | .greaterOrEqual => "gte"
    | .less => "lt"
    | .lessOrEqual => "lte"
    | .isIn => "in"
    | .notIn => "not_in"

namespace Comparison

def keyword : Comparison → String
  | .equal => "="
  | .notEqual => "<>"
  | .greater => ">"
  | .greaterOrEqual => ">="
  | .less => "<"
  | .lessOrEqual => "<="
  | .isIn => "IN"
  | .notIn => "NOT IN"

def isMembership : Comparison → Bool
  | .isIn | .notIn => true
  | _ => false

end Comparison

inductive TextOperator where
  | contains
  | startsWith
  | endsWith
  /-- The caller's pattern, letter case counts. -/
  | like
  /-- The caller's text, letter case does not count. -/
  | ilike
  deriving DecidableEq, Repr

instance : Named TextOperator where
  members := [.contains, .startsWith, .endsWith, .like, .ilike]
  name
    | .contains => "contains"
    | .startsWith => "starts_with"
    | .endsWith => "ends_with"
    | .like => "like"
    | .ilike => "ilike"

inductive NullCheck where
  | isNull
  | isNotNull
  deriving DecidableEq, Repr

instance : Named NullCheck where
  members := [.isNull, .isNotNull]
  name
    | .isNull => "is_null"
    | .isNotNull => "is_not_null"

inductive ArrayOperator where
  | isEmpty
  | isNotEmpty
  | lengthEqual
  | lengthGreater
  | lengthGreaterOrEqual
  | lengthLess
  | lengthLessOrEqual
  | contains
  | containsAll
  | containsAny
  deriving DecidableEq, Repr

instance : Named ArrayOperator where
  members :=
    [.isEmpty, .isNotEmpty, .lengthEqual, .lengthGreater, .lengthGreaterOrEqual, .lengthLess,
      .lengthLessOrEqual, .contains, .containsAll, .containsAny]
  name
    | .isEmpty => "is_empty"
    | .isNotEmpty => "is_not_empty"
    | .lengthEqual => "length_eq"
    | .lengthGreater => "length_gt"
    | .lengthGreaterOrEqual => "length_gte"
    | .lengthLess => "length_lt"
    | .lengthLessOrEqual => "length_lte"
    | .contains => "contains"
    | .containsAll => "contains_all"
    | .containsAny => "contains_any"

def ArrayOperator.label : ArrayOperator → String
  | .isEmpty => "IsEmpty"
  | .isNotEmpty => "IsNotEmpty"
  | .lengthEqual => "LengthEq"
  | .lengthGreater => "LengthGt"
  | .lengthGreaterOrEqual => "LengthGte"
  | .lengthLess => "LengthLt"
  | .lengthLessOrEqual => "LengthLte"
  | .contains => "Contains"
  | .containsAll => "ContainsAll"
  | .containsAny => "ContainsAny"

inductive ObjectOperator where
  | hasPath
  | pathEquals
  | pathContains
  | pathIsNull
  | pathIsNotNull
  deriving DecidableEq, Repr

instance : Named ObjectOperator where
  members := [.hasPath, .pathEquals, .pathContains, .pathIsNull, .pathIsNotNull]
  name
    | .hasPath => "has_path"
    | .pathEquals => "path_equals"
    | .pathContains => "path_contains"
    | .pathIsNull => "path_is_null"
    | .pathIsNotNull => "path_is_not_null"

def ObjectOperator.label : ObjectOperator → String
  | .hasPath => "HasPath"
  | .pathEquals => "PathEquals"
  | .pathContains => "PathContains"
  | .pathIsNull => "PathIsNull"
  | .pathIsNotNull => "PathIsNotNull"

inductive AggregateFunction where
  | count
  | countDistinct
  | sum
  | average
  | least
  | greatest
  deriving DecidableEq, Repr

instance : Named AggregateFunction where
  members := [.count, .countDistinct, .sum, .average, .least, .greatest]
  name
    | .count => "count"
    | .countDistinct => "count_distinct"
    | .sum => "sum"
    | .average => "avg"
    | .least => "min"
    | .greatest => "max"

namespace AggregateFunction

def label : AggregateFunction → String
  | .count => "Count"
  | .countDistinct => "CountDistinct"
  | .sum => "Sum"
  | .average => "Avg"
  | .least => "Min"
  | .greatest => "Max"

def isCount : AggregateFunction → Bool
  | .count | .countDistinct => true
  | _ => false

/-- The least and the greatest value have the type of their input. -/
def resultType (function : AggregateFunction) (input : Option ValueType) : ValueType :=
  match function with
  | .count | .countDistinct | .sum | .average => .number
  | .least | .greatest => input.getD .unknown

end AggregateFunction

inductive Metric where
  | cosine
  | euclidean
  | innerProduct
  deriving DecidableEq, Repr

instance : Named Metric where
  members := [.cosine, .euclidean, .innerProduct]
  name
    | .cosine => "cosine"
    | .euclidean => "l2"
    | .innerProduct => "inner_product"

namespace Metric

def name (metric : Metric) : String := Named.name metric

/-- The greatest distance that still has the given score: the cosine distance is one minus the
similarity, the score of a Euclidean search is itself a distance, and the distance of an inner
product is its negation. -/
def threshold (metric : Metric) (score : Float) : Float :=
  match metric with
  | .cosine => 1.0 - score
  | .euclidean => score
  | .innerProduct => -score

end Metric

inductive Direction where
  | outward
  | inward
  deriving DecidableEq, Repr

instance : Named Direction where
  members := [.outward, .inward]
  name
    | .outward => "out"
    | .inward => "in"

def Direction.reversed : Direction → Direction
  | .outward => .inward
  | .inward => .outward

inductive SortDirection where
  | ascending
  | descending
  deriving DecidableEq, Repr

instance : Named SortDirection where
  members := [.ascending, .descending]
  name
    | .ascending => "asc"
    | .descending => "desc"

inductive NullsOrder where
  | first
  | last
  deriving DecidableEq, Repr

instance : Named NullsOrder where
  members := [.first, .last]
  name
    | .first => "first"
    | .last => "last"

inductive SetOperator where
  | union
  | unionAll
  | intersection
  | difference
  deriving DecidableEq, Repr

instance : Named SetOperator where
  members := [.union, .unionAll, .intersection, .difference]
  name
    | .union => "union"
    | .unionAll => "union_all"
    | .intersection => "intersect"
    | .difference => "except"

def SetOperator.keyword : SetOperator → String
  | .union => "UNION"
  | .unionAll => "UNION ALL"
  | .intersection => "INTERSECT"
  | .difference => "EXCEPT"

end GraphSql
