import GraphSql.Statement.Term

namespace GraphSql

/-- The operators that compare two single values. -/
inductive Comparator where
  | equal
  | notEqual
  | greater
  | greaterOrEqual
  | less
  | lessOrEqual
  deriving DecidableEq, Repr

def Comparator.symbol : Comparator → String
  | .equal => "="
  | .notEqual => "<>"
  | .greater => ">"
  | .greaterOrEqual => ">="
  | .less => "<"
  | .lessOrEqual => "<="

/-- Set membership compares with many values. -/
def Comparison.comparator? : Comparison → Option Comparator
  | .equal => some .equal
  | .notEqual => some .notEqual
  | .greater => some .greater
  | .greaterOrEqual => some .greaterOrEqual
  | .less => some .less
  | .lessOrEqual => some .lessOrEqual
  | .isIn | .notIn => none

inductive Condition (σ : Type) where
  | constant (value : Bool)
  | compare (left : Term) (comparator : Comparator) (right : Term)
  | isNull (term : Term) (negated : Bool)
  | isIn (term : Term) (values : List Term) (negated : Bool)
  | between (term lower upper : Term)
  /-- A match in which letter case counts. -/
  | like (text pattern : Term)
  /-- A match in which letter case does not count. -/
  | ilike (text pattern : Term)
  | arrayContains (document : Term) (pointer : Pointer) (valueType : ValueType) (value : Term)
  | arrayContainsAll (document : Term) (pointer : Pointer) (valueType : ValueType) (values : List Term)
  | arrayContainsAny (document : Term) (pointer : Pointer) (valueType : ValueType) (values : List Term)
  | hasPath (document : Term) (pointer : Pointer)
  | pathIsNull (document : Term) (pointer : Pointer) (negated : Bool)
  /-- The node is not on the visited path. -/
  | offPath (path id : Term)
  | all (conditions : List (Condition σ))
  | any (conditions : List (Condition σ))
  /-- Not all of the conditions hold. -/
  | notAll (conditions : List (Condition σ))
  /-- The term equals the first value where the guard holds and the second one elsewhere. -/
  | equalsCase (term : Term) (guard : Condition σ) (first second : Term)
  /-- The statement returns a row. -/
  | subquery (statement : σ) (negated : Bool)
  | inSubquery (term : Term) (statement : σ) (negated : Bool)

namespace Condition

variable {σ τ : Type}

mutual

/-- Replaces the nested statements. -/
def map (f : σ → τ) : Condition σ → Condition τ
  | .constant value => .constant value
  | .compare left comparator right => .compare left comparator right
  | .isNull term negated => .isNull term negated
  | .isIn term values negated => .isIn term values negated
  | .between term lower upper => .between term lower upper
  | .like text pattern => .like text pattern
  | .ilike text pattern => .ilike text pattern
  | .arrayContains document pointer valueType value =>
      .arrayContains document pointer valueType value
  | .arrayContainsAll document pointer valueType values =>
      .arrayContainsAll document pointer valueType values
  | .arrayContainsAny document pointer valueType values =>
      .arrayContainsAny document pointer valueType values
  | .hasPath document pointer => .hasPath document pointer
  | .pathIsNull document pointer negated => .pathIsNull document pointer negated
  | .offPath path id => .offPath path id
  | .all conditions => .all (mapAll f conditions)
  | .any conditions => .any (mapAll f conditions)
  | .notAll conditions => .notAll (mapAll f conditions)
  | .equalsCase term guard first second => .equalsCase term (map f guard) first second
  | .subquery statement negated => .subquery (f statement) negated
  | .inSubquery term statement negated => .inSubquery term (f statement) negated

def mapAll (f : σ → τ) : List (Condition σ) → List (Condition τ)
  | [] => []
  | condition :: rest => map f condition :: mapAll f rest

end

def equal (left right : Term) : Condition σ := .compare left .equal right

/-- The term is one of the kinds. -/
def kindIs (term : Term) : List String → Condition σ
  | [kind] => equal term (.text kind)
  | kinds => .isIn term (kinds.map Term.text) false

/-- Conditions that all hold. -/
def printConjuncts (conditions : List Fragment) : Fragment := Fragment.join " AND " conditions

def printTerms (dialect : Dialect) (terms : List Term) : Fragment := Fragment.join ", " (terms.map (Term.print dialect))

mutual

/-- The text of a condition whose nested statements are already written. It is an operand of AND
and OR without parentheses around it. -/
def print (dialect : Dialect) : Condition Fragment → Fragment
  | .constant true => "1 = 1"
  | .constant false => "1 = 0"
  | .compare left comparator right =>
      left.print dialect ++ " " ++ comparator.symbol ++ " " ++ right.print dialect
  | .isNull term negated => term.print dialect ++ (if negated then " IS NOT NULL" else " IS NULL")
  | .isIn term values negated =>
      term.print dialect ++ (if negated then " NOT IN (" else " IN (") ++ printTerms dialect values ++ ")"
  | .between term lower upper =>
      term.print dialect ++ " BETWEEN " ++ lower.print dialect ++ " AND " ++ upper.print dialect
  | .like text pattern => dialect.like (text.print dialect) (pattern.print dialect)
  | .ilike text pattern => dialect.ilike (text.print dialect) (pattern.print dialect)
  | .arrayContains document pointer valueType value =>
      dialect.arrayContains (document.print dialect) pointer valueType (value.print dialect)
  | .arrayContainsAll document pointer valueType values =>
      dialect.arrayContainsAll (document.print dialect) pointer valueType (values.map (Term.print dialect))
  | .arrayContainsAny document pointer valueType values =>
      dialect.arrayContainsAny (document.print dialect) pointer valueType (values.map (Term.print dialect))
  | .hasPath document pointer => dialect.hasPath (document.print dialect) pointer
  | .pathIsNull document pointer negated =>
      dialect.pathIsNull (document.print dialect) pointer negated
  | .offPath path id => dialect.offPath (path.print dialect) (id.print dialect)
  | .all conditions => (printConjuncts (printAll dialect conditions)).parenthesized
  | .any conditions => (Fragment.join " OR " (printAll dialect conditions)).parenthesized
  | .notAll conditions => "NOT " ++ (printConjuncts (printAll dialect conditions)).parenthesized
  | .equalsCase term guard first second =>
      term.print dialect ++ " = CASE WHEN " ++ print dialect guard ++ " THEN " ++
        first.print dialect ++ " ELSE " ++ second.print dialect ++ " END"
  | .subquery statement negated =>
      (if negated then "NOT EXISTS (" else "EXISTS (") ++ statement ++ ")"
  | .inSubquery term statement negated =>
      term.print dialect ++ (if negated then " NOT IN (" else " IN (") ++ statement ++ ")"

def printAll (dialect : Dialect) : List (Condition Fragment) → List Fragment
  | [] => []
  | condition :: rest => print dialect condition :: printAll dialect rest

end

end Condition

end GraphSql
