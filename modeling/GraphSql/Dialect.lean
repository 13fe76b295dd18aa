import GraphSql.Query.Operator

namespace GraphSql

inductive Dialect where
  | sqlite
  | postgres
  deriving DecidableEq, Repr

instance : Named Dialect where
  members := [.sqlite, .postgres]
  name
    | .sqlite => "sqlite"
    | .postgres => "postgres"

/-- How hops of fixed length are written. -/
inductive ChainStrategy where
  /-- One row set for each alias, joined at the end. -/
  | rowSets
  deriving DecidableEq, Repr

def ChainStrategy.label : ChainStrategy → String
  | .rowSets => "CteChain"

/-- How hops of variable length are written. -/
inductive WalkStrategy where
  /-- Inverse edge kinds have a recursive member of their own. -/
  | manyMembers
  /-- There is one recursive member, and inverse edge kinds are part of its join. -/
  | oneMember
  deriving DecidableEq, Repr

def WalkStrategy.label : WalkStrategy → String
  | .manyMembers => "RecursiveCte"
  | .oneMember => "SingleRecursiveMember"

/-- How the members of a compound statement are written. -/
inductive CompoundStrategy where
  /-- Members cannot stand in parentheses; their row sets move to the front of the statement. -/
  | hoisted
  /-- Each member is a whole statement in parentheses. -/
  | parenthesized
  deriving DecidableEq, Repr

def CompoundStrategy.label : CompoundStrategy → String
  | .hoisted => "FlattenCtes"
  | .parenthesized => "ParenthesizedBranches"

/-- How distances of vectors are written. -/
inductive VectorStrategy where
  | functions
  | operators
  deriving DecidableEq, Repr

def VectorStrategy.label : VectorStrategy → String
  | .functions => "SqliteVec"
  | .operators => "PgVector"

structure Capabilities where
  chain : ChainStrategy
  walk : WalkStrategy
  compound : CompoundStrategy
  /-- A row set that another one reads is computed once. -/
  materializes : Bool
  /-- A recursive join is written so that the engine keeps its order. -/
  fixesJoinOrder : Bool
  vector : VectorStrategy
  metrics : List Metric
  deriving DecidableEq, Repr

namespace Dialect

def name (dialect : Dialect) : String := Named.name dialect

def capabilities : Dialect → Capabilities
  | .sqlite =>
      { chain := .rowSets
        walk := .manyMembers
        compound := .hoisted
        materializes := false
        fixesJoinOrder := true
        vector := .functions
        metrics := [.cosine, .euclidean] }
  | .postgres =>
      { chain := .rowSets
        walk := .oneMember
        compound := .parenthesized
        materializes := true
        fixesJoinOrder := false
        vector := .operators
        metrics := [.cosine, .euclidean, .innerProduct] }

/-- The mark of a slot; the first slot has the position 1. -/
def placeholder : Dialect → Nat → List Char
  | .sqlite, _ => ['?']
  | .postgres, index => '$' :: Nat.toDigits 10 index

/-- The value that the engine expects; SQLite has no booleans. -/
def bindValue : Dialect → Json → Json
  | .sqlite, .bool value => .ofNat (if value then 1 else 0)
  | _, value => value

end Dialect

end GraphSql
