import GraphSql.Column
import GraphSql.Query.Operator

namespace GraphSql

inductive JoinKind where
  | inner
  | left
  deriving DecidableEq, Repr

def JoinKind.label : JoinKind → String
  | .inner => "Inner"
  | .left => "Left"

inductive PlanOperator where
  /-- The rows of one table under an alias. -/
  | scan (aliasName : String) (source : Element)
  | filter (aliasName : String) (predicates : Nat)
  /-- The second input is joined to the first. -/
  | join (aliasName : String) (kind : JoinKind)
  | aggregate (groupKeys aggregates : Nat) (having : Bool)
  | sort (keys : Nat)
  | limitOffset (limit offset : Option UInt64)
  /-- The nearest neighbours of a vector. -/
  | nearest (aliasName : String) (metric : Metric) (count : UInt64)
  /-- A hop of variable length. -/
  | expand (aliasName : String) (minDepth maxDepth : UInt32) (cycleCheck : Bool)
  | combine (op : SetOperator)
  /-- The output columns; without a number all columns of all aliases. -/
  | project (columns : Option Nat)
  deriving DecidableEq, Repr

inductive Plan where
  | node (op : PlanOperator) (inputs : List Plan)

namespace PlanOperator

def sourceLabel : Element → String
  | .node => "Nodes"
  | .edge => "Edges"

def boundLabel : Option UInt64 → String
  | none => "None"
  | some bound => s!"Some({bound})"

def display : PlanOperator → String
  | .scan aliasName source => s!"Scan {aliasName} ({sourceLabel source})"
  | .filter aliasName predicates => s!"Filter {aliasName} [{predicates} predicate(s)]"
  | .join aliasName kind => s!"Join {aliasName} ({kind.label})"
  | .aggregate groupKeys aggregates having =>
      s!"Aggregate keys={groupKeys} aggregates={aggregates} having={having}"
  | .sort keys => s!"Sort keys={keys}"
  | .limitOffset limit offset =>
      s!"LimitOffset limit={boundLabel limit} offset={boundLabel offset}"
  | .nearest aliasName metric count => s!"VectorKnn {aliasName} {metric.name} k={count}"
  | .expand aliasName minDepth maxDepth cycleCheck =>
      s!"RecursiveExpand {aliasName} depth={minDepth}..={maxDepth} cycle_check={cycleCheck}"
  | .combine op => s!"SetOp {op.keyword}"
  | .project (some columns) => s!"Project {columns} column(s)"
  | .project none => "Project *"

/-- An operator that a statement writes after its row source. -/
def isClause : PlanOperator → Bool
  | .project _ | .limitOffset .. | .sort _ | .aggregate .. => true
  | _ => false

def isSort : PlanOperator → Bool
  | .sort _ => true
  | _ => false

def isLimitOffset : PlanOperator → Bool
  | .limitOffset .. => true
  | _ => false

def isGroupBy : PlanOperator → Bool
  | .aggregate groupKeys _ _ => 0 < groupKeys
  | _ => false

def isHaving : PlanOperator → Bool
  | .aggregate _ _ having => having
  | _ => false

end PlanOperator

namespace Plan

def op : Plan → PlanOperator
  | .node op _ => op

/-- Puts an operator above a plan. -/
def under (input : Plan) (op : PlanOperator) : Plan := .node op [input]

mutual

/-- One line for each operator, indented by its depth. -/
def displayAt (depth : Nat) : Plan → String
  | .node op inputs =>
      String.ofList (List.replicate (2 * depth) ' ') ++ op.display ++ "\n" ++ displayAllAt (depth + 1) inputs

def displayAllAt (depth : Nat) : List Plan → String
  | [] => ""
  | input :: rest => displayAt depth input ++ displayAllAt depth rest

end

def display (plan : Plan) : String := plan.displayAt 0

mutual

/-- The first part whose operator passes the test, each operator before its inputs. -/
def find? (test : PlanOperator → Bool) : Plan → Option Plan
  | .node op inputs =>
      if test op then some (.node op inputs) else findIn? test inputs

def findIn? (test : PlanOperator → Bool) : List Plan → Option Plan
  | [] => none
  | input :: rest =>
      match find? test input with
      | some found => some found
      | none => findIn? test rest

end

/-- An operator above the row source of the outermost statement passes the test. The members of a
compound keep their clauses to themselves. -/
def hasClause (test : PlanOperator → Bool) : Plan → Bool
  | .node op [input] => test op || (op.isClause && hasClause test input)
  | .node op _ => test op

def hasSort (plan : Plan) : Bool := plan.hasClause PlanOperator.isSort

def hasLimitOffset (plan : Plan) : Bool := plan.hasClause PlanOperator.isLimitOffset

def hasGroupBy (plan : Plan) : Bool := plan.hasClause PlanOperator.isGroupBy

def hasHaving (plan : Plan) : Bool := plan.hasClause PlanOperator.isHaving

end Plan

end GraphSql
