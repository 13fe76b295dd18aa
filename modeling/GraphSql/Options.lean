import GraphSql.Dialect
import GraphSql.Identifier
import GraphSql.Instant

namespace GraphSql

/-- The tables that a statement reads. -/
inductive Table where
  | nodes
  | edges
  | embeddings
  deriving DecidableEq, Repr

def Table.defaultName : Table → String
  | .nodes => "nodes"
  | .edges => "edges"
  | .embeddings => "embeddings"

theorem Table.check_defaultName (table : Table) : Identifier.check table.defaultName = .ok () := by
  cases table <;> rfl

/-- The names of the tables. -/
structure Schema where
  nodes : Identifier := ⟨Table.nodes.defaultName, Table.check_defaultName .nodes⟩
  edges : Identifier := ⟨Table.edges.defaultName, Table.check_defaultName .edges⟩
  embeddings : Identifier := ⟨Table.embeddings.defaultName, Table.check_defaultName .embeddings⟩

namespace Schema

def ofNames (nodes edges embeddings : String) : Except ConfigError Schema := do
  return {
    nodes := ← Identifier.ofString nodes
    edges := ← Identifier.ofString edges
    embeddings := ← Identifier.ofString embeddings }

def tableName (schema : Schema) : Table → Identifier
  | .nodes => schema.nodes
  | .edges => schema.edges
  | .embeddings => schema.embeddings

end Schema

structure Options where
  dialect : Dialect := .sqlite
  schema : Schema := {}
  /-- The time that counts as now; without it the clock of the engine counts. -/
  now : Option Instant := none

end GraphSql
