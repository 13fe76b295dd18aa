import GraphSql.Dialect
import GraphSql.Json.Printer

namespace GraphSql

inductive LogLevel where
  | debug
  | trace
  deriving DecidableEq, Repr

instance : Named LogLevel where
  members := [.debug, .trace]
  name
    | .debug => "debug"
    | .trace => "trace"

/-- The way in which the traversals of a query are compiled. -/
inductive Route where
  | chain
  | walk
  deriving DecidableEq, Repr

def Route.label : Route → String
  | .chain => "standard"
  | .walk => "recursive"

/-- One step of the analysis of a query. -/
inductive Stage where
  | validation
  | similarity
  | depthRange
  | visibility
  | pruning
  | collapse
  | pushdown
  | counting
  | chainPlan
  | walkPlan
  deriving DecidableEq, Repr

def Stage.label : Stage → String
  | .validation => "validate"
  | .similarity => "vector_detection"
  | .depthRange => "recursive_validation"
  | .visibility => "temporal"
  | .pruning => "column_pruning"
  | .collapse => "collapse"
  | .pushdown => "limit_pushdown"
  | .counting => "count_fast_path"
  | .chainPlan => "plan_lowering"
  | .walkPlan => "recursive_plan"

/-- The stages in the order in which they run. -/
def Route.stages : Route → List Stage
  | .chain =>
      [.validation, .similarity, .visibility, .pruning, .collapse, .pushdown, .counting, .chainPlan]
  | .walk => [.validation, .similarity, .depthRange, .visibility, .walkPlan]

inductive Event where
  | compiling (dialect : Dialect) (start : String) (traversals : Nat)
  | routeChosen (route : Route)
  | singleHop (start : String)
  | stagesListed (stages : List Stage)
  | stageEntered (stage : Stage)
  | similarityFound (aliasName : String) (metric : Metric) (count : UInt64)
  | pruned (aliases : Nat)
  | collapsed (traversals : Nat)
  | limitPushed (limit pushed : UInt64)
  | counted (aliasName : String) (counts : Nat)
  | combining (op : SetOperator) (branches : Nat) (strategy : CompoundStrategy)
  | compiled (dialect : Dialect) (bytes slots : Nat)
  deriving DecidableEq, Repr

namespace Event

def level : Event → LogLevel
  | .compiled .. => .trace
  | _ => .debug

def message : Event → String
  | .compiling .. => "Compiling query"
  | .routeChosen _ => "Selected compilation path"
  | .singleHop _ => "Lowering single-hop recursive traversal"
  | .stagesListed _ => "Running pass pipeline"
  | .stageEntered _ => "Running compiler pass"
  | .similarityFound .. => "Vector search detected"
  | .pruned _ => "Column pruning applied"
  | .collapsed _ => "Collapsing traversal rowsets"
  | .limitPushed .. => "Pushing LIMIT into traversal CTEs"
  | .counted .. => "Using count fast path"
  | .combining .. => "Compiling set operation"
  | .compiled .. => "Compiled query"

def stageList (stages : List Stage) : String :=
  "[" ++ String.intercalate ", " (stages.map fun stage => Json.quote stage.label) ++ "]"

def fields : Event → List (String × Json)
  | .compiling dialect start traversals =>
      [("dialect", .string dialect.name), ("start", .string start), ("traversals", .ofNat traversals)]
  | .routeChosen route => [("path", .string route.label)]
  | .singleHop start => [("alias", .string start)]
  | .stagesListed stages => [("passes", .string (stageList stages))]
  | .stageEntered stage => [("pass", .string stage.label)]
  | .similarityFound aliasName metric count =>
      [("alias", .string aliasName), ("metric", .string metric.name), ("k", .ofNat count.toNat)]
  | .pruned aliases => [("aliases", .ofNat aliases)]
  | .collapsed traversals => [("traversals", .ofNat traversals)]
  | .limitPushed limit pushed => [("limit", .ofNat limit.toNat), ("pushed", .ofNat pushed.toNat)]
  | .counted aliasName counts => [("alias", .string aliasName), ("counts", .ofNat counts)]
  | .combining op branches strategy =>
      [("op", .string op.keyword), ("branches", .ofNat branches), ("strategy", .string strategy.label)]
  | .compiled dialect bytes slots =>
      [("dialect", .string dialect.name), ("sql_len", .ofNat bytes), ("params", .ofNat slots)]

def toJson (event : Event) : Json :=
  .ofMembers [("level", .string (Named.name event.level)), ("message", .string event.message),
      ("fields", .ofMembers event.fields)]

end Event

end GraphSql
