import GraphSql.Options
import GraphSql.Plan
import GraphSql.Statement.Condition

namespace GraphSql

open Condition

/-- One entry of a SELECT list. -/
inductive OutputColumn where
  /-- The column keeps its name. -/
  | plain (term : Term)
  /-- A generated name. -/
  | named (term : Term) (name : String)
  /-- A name of the caller. -/
  | quoted (term : Term) (name : String)
  /-- Every column of a row set. -/
  | every (row : Row)

/-- Where rows come from. -/
inductive Source where
  | table (table : Table)
  /-- A named row set under its own name or under a row name. -/
  | relation (name : String) (row : Option Row)
  /-- Some columns of a named row set, each combination of values once. -/
  | distinct (name : String) (columns : List String) (row : Row)
  deriving DecidableEq, Repr

structure Join (σ : Type) where
  kind : JoinKind := .inner
  /-- The engine keeps the order of the two sides. -/
  ordered : Bool := false
  source : Source
  conditions : List (Condition σ)

structure SortKey where
  term : Term
  direction : SortDirection := .ascending
  nulls : Option NullsOrder := none

structure Bounds where
  limit : Option UInt64
  offset : Option UInt64
  deriving DecidableEq, Repr

structure Select (σ : Type) where
  columns : List OutputColumn
  source : Source
  joins : List (Join σ) := []
  conditions : List (Condition σ) := []
  groupBy : List Term := []
  having : Option (Condition σ) := none
  orderBy : List SortKey := []
  bounds : Option Bounds := none

/-- A named row set. Members after the first one may read the row set itself. -/
structure RowSet (σ : Type) where
  name : String
  materialized : Bool := false
  members : List (Select σ)

/-- One level of a statement: named row sets, each of which may read those before it, and the
SELECT that reads them. -/
structure Level (σ : Type) where
  isRecursive : Bool := false
  rowSets : List (RowSet σ)
  select : Select σ

/-- A statement: a level whose nested statements are statements. -/
inductive Statement where
  | mk (level : Level Statement)

/-- The conditions of a clause, all of which have to hold. -/
abbrev Conditions := List (Condition Statement)

def Statement.level : Statement → Level Statement
  | .mk level => level

section Map

variable {σ τ : Type}

/-- Replaces the nested statements. -/
def Join.map (f : σ → τ) (join : Join σ) : Join τ where
  kind := join.kind
  ordered := join.ordered
  source := join.source
  conditions := mapAll f join.conditions

def Select.map (f : σ → τ) (select : Select σ) : Select τ where
  columns := select.columns
  source := select.source
  joins := select.joins.map (Join.map f)
  conditions := mapAll f select.conditions
  groupBy := select.groupBy
  having := select.having.map (Condition.map f)
  orderBy := select.orderBy
  bounds := select.bounds

def RowSet.map (f : σ → τ) (rowSet : RowSet σ) : RowSet τ where
  name := rowSet.name
  materialized := rowSet.materialized
  members := rowSet.members.map (Select.map f)

def Level.map (f : σ → τ) (level : Level σ) : Level τ where
  isRecursive := level.isRecursive
  rowSets := level.rowSets.map (RowSet.map f)
  select := level.select.map f

end Map

namespace Statement

variable {τ : Type}

mutual

/-- Computes a value for a statement from the values of its nested statements. -/
def fold (step : Level τ → τ) : Statement → τ
  | .mk level => step (foldLevel step level)

def foldLevel (step : Level τ → τ) : Level Statement → Level τ
  | ⟨isRecursive, rowSets, select⟩ =>
      ⟨isRecursive, foldRowSets step rowSets, foldSelect step select⟩

def foldRowSets (step : Level τ → τ) : List (RowSet Statement) → List (RowSet τ)
  | [] => []
  | rowSet :: rest => foldRowSet step rowSet :: foldRowSets step rest

def foldRowSet (step : Level τ → τ) : RowSet Statement → RowSet τ
  | ⟨name, materialized, members⟩ => ⟨name, materialized, foldSelects step members⟩

def foldSelects (step : Level τ → τ) : List (Select Statement) → List (Select τ)
  | [] => []
  | select :: rest => foldSelect step select :: foldSelects step rest

def foldSelect (step : Level τ → τ) : Select Statement → Select τ
  | ⟨columns, source, joins, conditions, groupBy, having, orderBy, bounds⟩ =>
      ⟨columns, source, foldJoins step joins, foldConditions step conditions, groupBy,
        foldHaving step having, orderBy, bounds⟩

def foldJoins (step : Level τ → τ) : List (Join Statement) → List (Join τ)
  | [] => []
  | join :: rest => foldJoin step join :: foldJoins step rest

def foldJoin (step : Level τ → τ) : Join Statement → Join τ
  | ⟨kind, ordered, source, conditions⟩ =>
      ⟨kind, ordered, source, foldConditions step conditions⟩

def foldHaving (step : Level τ → τ) : Option (Condition Statement) → Option (Condition τ)
  | none => none
  | some condition => some (foldCondition step condition)

def foldCondition (step : Level τ → τ) : Condition Statement → Condition τ
  | .constant value => .constant value
  | .compare left comparator right => .compare left comparator right
  | .isNull term negated => .isNull term negated
  | .isIn term values negated => .isIn term values negated
  | .between term lower upper => .between term lower upper
  | .like text pattern => .like text pattern
  | .ilike text pattern => .ilike text pattern
  | .arrayContains document pointer valueType value =>
      .arrayContains document pointer valueType value
  | .arrayContainsAll document pointer valueType values =>
      .arrayContainsAll document pointer valueType values
  | .arrayContainsAny document pointer valueType values =>
      .arrayContainsAny document pointer valueType values
  | .hasPath document pointer => .hasPath document pointer
  | .pathIsNull document pointer negated => .pathIsNull document pointer negated
  | .offPath path id => .offPath path id
  | .all conditions => .all (foldConditions step conditions)
  | .any conditions => .any (foldConditions step conditions)
  | .notAll conditions => .notAll (foldConditions step conditions)
  | .equalsCase term guard first second =>
      .equalsCase term (foldCondition step guard) first second
  | .subquery statement negated => .subquery (fold step statement) negated
  | .inSubquery term statement negated => .inSubquery term (fold step statement) negated

def foldConditions (step : Level τ → τ) : Conditions → List (Condition τ)
  | [] => []
  | condition :: rest => foldCondition step condition :: foldConditions step rest

end

mutual

theorem foldCondition_eq_map (step : Level τ → τ) : (condition : Condition Statement) →
      foldCondition step condition = condition.map (fold step)
  | .constant _ | .compare .. | .isNull .. | .isIn .. | .between .. | .like .. | .ilike .. |
    .arrayContains .. | .arrayContainsAll .. | .arrayContainsAny .. | .hasPath .. |
    .pathIsNull .. | .offPath .. | .subquery .. | .inSubquery .. => by
      simp [foldCondition, Condition.map]
  | .all conditions | .any conditions | .notAll conditions => by
      simp [foldCondition, Condition.map, foldConditions_eq_mapAll step conditions]
  | .equalsCase _ guard _ _ => by
      simp [foldCondition, Condition.map, foldCondition_eq_map step guard]

theorem foldConditions_eq_mapAll (step : Level τ → τ) : (conditions : Conditions) →
      foldConditions step conditions = mapAll (fold step) conditions
  | [] => by simp [foldConditions, mapAll]
  | condition :: rest => by
      simp [foldConditions, mapAll, foldCondition_eq_map step condition, foldConditions_eq_mapAll step rest]

end

theorem foldJoin_eq_map (step : Level τ → τ) (join : Join Statement) : foldJoin step join = join.map (fold step) := by
  cases join
  simp [foldJoin, Join.map, foldConditions_eq_mapAll]

theorem foldJoins_eq_map (step : Level τ → τ) (joins : List (Join Statement)) :
    foldJoins step joins = joins.map (Join.map (fold step)) := by
  induction joins with
  | nil => simp [foldJoins]
  | cons join rest ih =>
      simp [foldJoins, foldJoin_eq_map, ih]

theorem foldSelect_eq_map (step : Level τ → τ) (select : Select Statement) :
    foldSelect step select = select.map (fold step) := by
  cases select with
  | mk columns source joins conditions groupBy having orderBy bounds =>
      cases having <;>
        simp [foldSelect, Select.map, foldJoins_eq_map, foldConditions_eq_mapAll, foldHaving, foldCondition_eq_map]

theorem foldSelects_eq_map (step : Level τ → τ) (selects : List (Select Statement)) :
    foldSelects step selects = selects.map (Select.map (fold step)) := by
  induction selects with
  | nil => simp [foldSelects]
  | cons select rest ih =>
      simp [foldSelects, foldSelect_eq_map, ih]

theorem foldRowSet_eq_map (step : Level τ → τ) (rowSet : RowSet Statement) :
    foldRowSet step rowSet = rowSet.map (fold step) := by
  cases rowSet
  simp [foldRowSet, RowSet.map, foldSelects_eq_map]

theorem foldRowSets_eq_map (step : Level τ → τ) (rowSets : List (RowSet Statement)) :
    foldRowSets step rowSets = rowSets.map (RowSet.map (fold step)) := by
  induction rowSets with
  | nil => simp [foldRowSets]
  | cons rowSet rest ih =>
      simp [foldRowSets, foldRowSet_eq_map, ih]

/-- Folding a statement is a step on its level with the nested statements folded. -/
theorem fold_mk (step : Level τ → τ) (level : Level Statement) :
    fold step (.mk level) = step (level.map (fold step)) := by
  cases level
  simp [fold, foldLevel, Level.map, foldRowSets_eq_map, foldSelect_eq_map]

end Statement

end GraphSql
