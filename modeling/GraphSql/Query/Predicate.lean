import GraphSql.Field
import GraphSql.Query.Operator

namespace GraphSql

/-- The right-hand side of a predicate. -/
inductive Operand where
  | literal (value : Json) (valueType : Option ValueType)
  | list (values : List Json) (valueType : Option ValueType)
  /-- A value that is bound after compilation. -/
  | parameter (name : String) (valueType : Option ValueType)

namespace Operand

def explicitType : Operand → Option ValueType
  | .literal _ valueType | .list _ valueType | .parameter _ valueType => valueType

def isStringLiteral : Operand → Bool
  | .literal (.string _) _ => true
  | _ => false

end Operand

structure Aggregate where
  function : AggregateFunction
  field : Field
  deriving DecidableEq, Repr

/-- A search for the nearest neighbours of a vector. -/
structure Similarity where
  field : Field
  embedding : List Float32
  metric : Metric
  /-- The number of neighbours. -/
  count : UInt64
  minScore : Option Float := none

inductive Predicate (σ : Type) where
  | comparison (field : Field) (op : Comparison) (value : Operand)
  | text (field : Field) (op : TextOperator) (pattern : Operand)
  | nullCheck (field : Field) (op : NullCheck)
  | between (field : Field) (lower upper : Operand)
  | array (field : Field) (op : ArrayOperator) (values : List Operand)
  | object (field : Field) (op : ObjectOperator) (pointer : Pointer) (value : Option Operand)
  | aggregate (aggregate : Aggregate) (op : Comparison) (value : Operand)
  | and (operands : List (Predicate σ))
  | or (operands : List (Predicate σ))
  | not (operand : Predicate σ)
  /-- The nested query returns a row. -/
  | subquery (query : σ) (negated : Bool)
  | inSubquery (field : Field) (query : σ) (negated : Bool)
  | similarity (search : Similarity)

namespace Predicate

variable {σ τ : Type}

mutual

/-- Replaces the nested queries. -/
def map (f : σ → τ) : Predicate σ → Predicate τ
  | .comparison field op value => .comparison field op value
  | .text field op pattern => .text field op pattern
  | .nullCheck field op => .nullCheck field op
  | .between field lower upper => .between field lower upper
  | .array field op values => .array field op values
  | .object field op pointer value => .object field op pointer value
  | .aggregate expression op value => .aggregate expression op value
  | .and operands => .and (mapAll f operands)
  | .or operands => .or (mapAll f operands)
  | .not operand => .not (map f operand)
  | .subquery query negated => .subquery (f query) negated
  | .inSubquery field query negated => .inSubquery field (f query) negated
  | .similarity search => .similarity search

def mapAll (f : σ → τ) : List (Predicate σ) → List (Predicate τ)
  | [] => []
  | operand :: rest => map f operand :: mapAll f rest

end

mutual

/-- The test holds for the predicate or for one of its parts; nested queries are not entered. -/
def anyPart (test : Predicate σ → Bool) : Predicate σ → Bool
  | .and operands => test (.and operands) || anyPartOf test operands
  | .or operands => test (.or operands) || anyPartOf test operands
  | .not operand => test (.not operand) || anyPart test operand
  | other => test other

def anyPartOf (test : Predicate σ → Bool) : List (Predicate σ) → Bool
  | [] => false
  | operand :: rest => anyPart test operand || anyPartOf test rest

end

def isSimilarity : Predicate σ → Bool
  | .similarity _ => true
  | _ => false

def isSubquery : Predicate σ → Bool
  | .subquery .. | .inSubquery .. => true
  | _ => false

def containsSimilarity (predicate : Predicate σ) : Bool := predicate.anyPart isSimilarity

def containsSubquery (predicate : Predicate σ) : Bool := predicate.anyPart isSubquery

mutual

/-- The similarity searches at the top or under conjunctions only. -/
def topSimilarities : Predicate σ → List Similarity
  | .similarity search => [search]
  | .and operands => topSimilaritiesOf operands
  | _ => []

def topSimilaritiesOf : List (Predicate σ) → List Similarity
  | [] => []
  | operand :: rest => topSimilarities operand ++ topSimilaritiesOf rest

end

mutual

/-- A similarity search stands under a disjunction or a negation. -/
def hasNestedSimilarity : Predicate σ → Bool
  | .and operands => hasNestedSimilarityIn operands
  | .or operands => operands.any containsSimilarity
  | .not operand => operand.containsSimilarity
  | _ => false

def hasNestedSimilarityIn : List (Predicate σ) → Bool
  | [] => false
  | operand :: rest => hasNestedSimilarity operand || hasNestedSimilarityIn rest

end

mutual

/-- The fields that the predicate reads itself, in order; those of nested queries are not among
them. -/
def fields : Predicate σ → List Field
  | .comparison field .. | .text field .. | .nullCheck field _ | .between field .. |
    .array field .. | .object field .. | .inSubquery field .. => [field]
  | .aggregate expression .. => [expression.field]
  | .similarity search => [search.field]
  | .and operands => fieldsOf operands
  | .or operands => fieldsOf operands
  | .not operand => fields operand
  | .subquery .. => []

def fieldsOf : List (Predicate σ) → List Field
  | [] => []
  | operand :: rest => fields operand ++ fieldsOf rest

end

/-- Equality with a literal that has no declared type. -/
def equals (field : Field) (value : Json) : Predicate σ := .comparison field .equal (.literal value none)

/-- A text operator with a literal pattern. -/
def textLiteral (field : Field) (op : TextOperator) (pattern : Json) : Predicate σ :=
  .text field op (.literal pattern none)

end Predicate

end GraphSql
