import GraphSql.Dialect
import GraphSql.Field

namespace GraphSql

/-- The part of a query in which a field stands. -/
inductive Clause where
  | predicate
  | projection
  | groupBy
  | having
  | orderBy
  | selected
  deriving DecidableEq, Repr

def Clause.label : Clause → String
  | .predicate => "predicate"
  | .projection => "projection"
  | .groupBy => "GROUP BY"
  | .having => "HAVING"
  | .orderBy => "ORDER BY"
  | .selected => "selective fields"

/-- What members of a compound statement cannot have where their row sets move to the front. -/
inductive Unhoistable where
  | traversals
  | subqueries
  | similarity
  | grouping
  | clauses
  deriving DecidableEq, Repr

def Unhoistable.label : Unhoistable → String
  | .traversals => "traversals"
  | .subqueries => "EXISTS/IN subqueries"
  | .similarity => "vector similarity"
  | .grouping => "GROUP BY/HAVING"
  | .clauses => "per-branch ORDER BY/LIMIT/OFFSET"

/-- What a query asks for and cannot get. Fields are given as they are described. -/
inductive Unsupported where
  | startWithoutKinds (aliasName : String)
  | duplicateAlias (aliasName : String)
  | traversalWithoutKinds (edgeAlias : String)
  | joinFromUnbound (nodeAlias joinFrom : String)
  | unknownAliasIn (aliasName : String) (clause : Clause)
  | invalidField (fault : FieldFault)
  | filterOnUnknown (aliasName : String)
  | filterOnEdge (aliasName : String)
  | filterOnNode (aliasName : String)
  | duplicateProjection (name : String)
  | duplicateSelected (name : String)
  | columnCollision (firstAlias secondAlias name : String)
  | nestedSimilarity
  | similarityInHaving
  | manySimilarities (count : Nat)
  | similarityTarget (aliasName : String)
  | similarityField (field : String)
  | similarityCount
  | unsupportedMetric (metric : Metric) (dialect : Dialect)
  | depthAboveLimit (depth : Int) (limit : Nat)
  | depthBelowOne (depth : Int)
  | emptyDepthRange (least greatest : Nat)
  | walkAmongOthers (traversals : Nat)
  | optionalWalk (nodeAlias : String)
  | similarityInWalk
  | absentColumn (column : Column) (element : Element) (aliasName : String)
  | unknownAlias (aliasName : String)
  | countedAlias (aliasName : String)
  | walkedEdge (edgeAlias : String)
  | wholeAlias (aliasName : String)
  | aggregatePlace (function : AggregateFunction) (field : String)
  | aggregateOverAlias (function : AggregateFunction) (aliasName : String)
  | aggregateMembership (op : Comparison)
  | membershipParameter (op : Comparison) (field name : String)
  | nullComparison (field : String) (op : Comparison)
  | arrayValue (op : ArrayOperator) (field : String)
  | objectValue (op : ObjectOperator) (field : String)
  | propertyNeeded (what field : String)
  | container (op : String) (valueType : ValueType) (field : String)
  | mixedLiterals (first second : ValueType)
  | mixedOperands (field : String) (first second : ValueType)
  | mixedElements (field : String) (first second : ValueType)
  | subqueryWidth (field : String) (columns : Nat)
  | subqueryAlias (field aliasName : String)
  | subqueryType (field : String) (outer inner : ValueType)
  | subqueryGraph (aliasName : String)
  | patternValue (value : String)
  | listOperand
  | hoisting (dialect : Dialect) (problems : List (Unhoistable × Nat))
  | compoundWidths (widths : List Nat)
  | compoundOrder
  | compoundOrderField (field : String) (available : List String)
  /-- A reason in the words of the caller. -/
  | custom (message : String)
  deriving DecidableEq, Repr

def Unsupported.message : Unsupported → String
  | .startWithoutKinds aliasName => s!"start alias '{aliasName}' has no node kinds"
  | .duplicateAlias aliasName => s!"duplicate alias '{aliasName}'"
  | .traversalWithoutKinds edgeAlias => s!"traversal '{edgeAlias}' has no edge kinds"
  | .joinFromUnbound nodeAlias joinFrom =>
      s!"traversal '{nodeAlias}' joins from '{joinFrom}', " ++ "which is not the start alias or an earlier node alias"
  | .unknownAliasIn aliasName clause => s!"unknown alias '{aliasName}' in {clause.label}"
  | .invalidField fault => fault.message
  | .filterOnUnknown aliasName => s!"predicate targets unknown alias '{aliasName}'"
  | .filterOnEdge aliasName =>
      s!"predicate targets '{aliasName}' as a node, but it is an edge alias"
  | .filterOnNode aliasName =>
      s!"predicate targets '{aliasName}' as an edge, but it is a node alias"
  | .duplicateProjection name => s!"duplicate projection output name '{name}'"
  | .duplicateSelected name => s!"duplicate selective field output name '{name}'"
  | .columnCollision firstAlias secondAlias name =>
      s!"aliases '{firstAlias}' and '{secondAlias}' both produce the column name '{name}'"
  | .nestedSimilarity => "vector similarity may only appear at top level or under AND"
  | .similarityInHaving => "vector similarity is not allowed in HAVING"
  | .manySimilarities count =>
      s!"only one vector similarity predicate is supported per query, found {count}"
  | .similarityTarget aliasName => s!"vector similarity must target a node alias, got '{aliasName}'"
  | .similarityField field => s!"vector similarity needs an embedding property, got '{field}'"
  | .similarityCount => "vector similarity k must be at least 1"
  | .unsupportedMetric metric dialect =>
      let supported := String.intercalate ", " (dialect.capabilities.metrics.map Metric.name)
      s!"vector metric '{metric.name}' is not supported by the {dialect.name} dialect " ++ s!"(supported: {supported})"
  | .depthAboveLimit depth limit => s!"max_depth {depth} exceeds the limit of {limit}"
  | .depthBelowOne depth => s!"max_depth must be at least 1 or -1 for unbounded, got {depth}"
  | .emptyDepthRange least greatest =>
      s!"min_depth {least} is greater than max_depth {greatest}"
  | .walkAmongOthers traversals =>
      "variable-length traversals must be the only traversal in a query, " ++ s!"found {traversals}"
  | .optionalWalk nodeAlias => s!"variable-length traversal '{nodeAlias}' cannot be optional"
  | .similarityInWalk => "vector similarity cannot be combined with variable-length traversals"
  | .absentColumn column element aliasName =>
      let kind := Named.name element
      s!"column '{column.name}' does not exist on {kind} alias '{aliasName}'"
  | .unknownAlias aliasName => s!"unknown alias '{aliasName}'"
  | .countedAlias aliasName => s!"alias '{aliasName}' is only available through COUNT aggregates"
  | .walkedEdge edgeAlias =>
      s!"edge alias '{edgeAlias}' is only available in predicates on the " ++ "variable-length traversal"
  | .wholeAlias aliasName => s!"alias '{aliasName}' must be narrowed to a column or property here"
  | .aggregatePlace function field =>
      s!"aggregate {function.label} over '{field}' is only allowed in projection or HAVING"
  | .aggregateOverAlias function aliasName =>
      s!"{function.label} requires a column or property of '{aliasName}'"
  | .aggregateMembership op =>
      s!"{op.keyword} is not supported for aggregate comparisons"
  | .membershipParameter op field name =>
      s!"{op.keyword} on '{field}' needs a literal list, not parameter '{name}'"
  | .nullComparison field op => s!"cannot compare '{field}' {op.keyword} NULL"
  | .arrayValue op field =>
      s!"array operator {op.label} on '{field}' requires a value"
  | .objectValue op field =>
      s!"object operator {op.label} on '{field}' requires a value"
  | .propertyNeeded what field => s!"{what} require a property field, got '{field}'"
  | .container op valueType field =>
      s!"operator '{op}' does not support {valueType.name} values (field '{field}')"
  | .mixedLiterals first second =>
      s!"mixed literal types in one predicate: {first.name} and {second.name}"
  | .mixedOperands field first second =>
      s!"mixed literal types in one predicate on '{field}': {first.name} and {second.name}"
  | .mixedElements field first second =>
      s!"mixed literal types in array predicate on '{field}': {first.name} and {second.name}"
  | .subqueryWidth field columns =>
      s!"IN subquery for '{field}' must project exactly one column, found {columns}"
  | .subqueryAlias field aliasName =>
      s!"IN subquery for '{field}' must project a single column, not alias '{aliasName}'"
  | .subqueryType field outer inner =>
      s!"IN subquery type mismatch: '{field}' is {outer.name} but the subquery projects " ++ inner.name
  | .subqueryGraph aliasName => s!"subquery starting at '{aliasName}' must carry a graph id"
  | .patternValue value => s!"pattern operand must be a string, got {value}"
  | .listOperand => "list operand is only valid for IN / NOT IN and array operators"
  | .hoisting dialect problems =>
      let listed := problems.map fun (problem, branch) => s!"{problem.label} (branch {branch})"
      s!"set operations on {dialect.name} do not support: " ++ String.intercalate ", " listed
  | .compoundWidths widths =>
      "set operation branches project different column counts: " ++ String.intercalate ", " (widths.map toString)
  | .compoundOrder =>
      "ORDER BY on a set operation requires explicit field projection in the left branch"
  | .compoundOrderField field available =>
      let columns := String.intercalate ", " available
      s!"ORDER BY field '{field}' is not projected by the set operation; " ++ s!"available columns: {columns}"
  | .custom message => message

/-- Why a query or set operation does not compile. -/
inductive CompileError where
  | configuration (error : ConfigError)
  | unsupported (cause : Unsupported)
  /-- Two parts of the compiler disagree. -/
  | invariant (phase message context : String)
  deriving DecidableEq, Repr

namespace CompileError

def message : CompileError → String
  | .configuration error => s!"configuration error: {error.message}"
  | .unsupported cause => s!"unsupported predicate: {cause.message}"
  | .invariant phase message context =>
      s!"compiler invariant violated during {phase}: {message} [{context}]"

/-- The caller can mend the query or the options. -/
def isCallerFixable : CompileError → Bool
  | .invariant .. => false
  | _ => true

end CompileError

/-- What can fail with an error of the compiler. -/
abbrev Attempt := Except CompileError

/-- Why values cannot be bound to a compiled query. -/
inductive BindError where
  | missingParameter (name : String)
  | expectedString (name : String) (found : ValueType)
  deriving DecidableEq, Repr

def BindError.message : BindError → String
  | .missingParameter name => s!"missing value for parameter '{name}'"
  | .expectedString name found => s!"parameter '{name}' must be a string, got {found.name}"

end GraphSql
