import GraphSql.Proofs.Semantics.Hop

namespace GraphSql

inductive Datum where
  | null
  | integer (value : Int)
  | text (content : String)
  | array (entries : List String)
  deriving DecidableEq, Repr

namespace Datum

/-- Integers come before texts. A comparison with null is unknown, and arrays are not compared. -/
def comparison (comparator : Comparator) : Datum → Datum → Truth
  | .integer first, .integer second => .ofBool (comparator.holds first second)
  | .text first, .text second => .ofBool (comparator.holds first second)
  | .integer _, .text _ => .ofBool (comparator.holds 0 1)
  | .text _, .integer _ => .ofBool (comparator.holds 1 0)
  | .null, _ | _, .null | .array _, _ | _, .array _ => .unknown

def ofSlot : Slot → Datum
  | .value (.string content) => .text content
  | .value (.number (.integer value)) => .integer value
  | .value (.bool value) => .integer value.toInt
  | .value _ | .named .. => .null

def successor : Datum → Datum
  | .integer value => .integer (value + 1)
  | .null | .text _ | .array _ => .null

def append : Datum → Datum → Datum
  | .text first, .text second => .text (first ++ second)
  | _, _ => .null

/-- The second text does not occur in the first one. -/
def lacks : Datum → Datum → Truth
  | .text whole, .text part => .ofBool (!decide (part.toList <:+: whole.toList))
  | _, _ => .unknown

def bar : Datum := .text "|"

def aggregate (function : AggregateFunction) (values : Multiset Datum) : Datum :=
  let present := values.filter (· ≠ .null)
  match function with
  | .count => .integer present.card
  | .countDistinct => .integer present.dedup.card
  | .sum | .average | .least | .greatest => .null

def db : Engine Datum where
  null := .null
  integer := .integer
  text := .text
  slot := ofSlot
  now := .text "2024-01-01T00:00:00.000Z"
  compare := comparison
  successor := successor
  aggregate := aggregate
  extract _ _ _ := .null
  arrayLength _ _ := .null
  pathStart id := (bar.append id).append bar
  pathExtend path id := (path.append id).append bar
  offPath path id := path.lacks ((bar.append id).append bar)
  distance _ _ _ := .null
  like _ _ := .unknown
  ilike _ _ := .unknown
  arrayContains _ _ _ _ := .unknown
  arrayContainsAll _ _ _ _ := .unknown
  arrayContainsAny _ _ _ _ := .unknown
  hasPath _ _ := .no
  pathIsNull _ _ negated := .ofBool !negated
  precedes direction _ first second :=
    match direction with
    | .ascending => comparison .less first second = .yes
    | .descending => comparison .greater first second = .yes
  text_ne_null _ := by simp
  integer_ne_null _ := by simp
  slot_string _ := rfl
  equal_text value content := by cases value <;> simp [comparison, Comparator.holds]
  compare_text first second := by simp [comparison, Comparator.holds, beq_eq_decide]
  compare_integer _ _ _ := rfl
  successor_integer _ := rfl
  count values := by
    simp only [aggregate]
    congr
  countDistinct values := by
    simp only [aggregate]
    congr
    exact Subsingleton.elim _ _

def startArray : Datum → Datum
  | .text id => .array [id]
  | _ => .null

def extendArray : Datum → Datum → Datum
  | .array ids, .text id => .array (ids ++ [id])
  | _, _ => .null

/-- The text is not an entry of the array. -/
def lacksEntry : Datum → Datum → Truth
  | .array ids, .text id => .ofBool (!decide (id ∈ ids))
  | _, _ => .unknown

/-- The engine with arrays for visited paths. -/
def arrayEngine : Engine Datum :=
  { db with pathStart := startArray, pathExtend := extendArray, offPath := lacksEntry }

/-- An edge between two nodes, each given by its kind and its id. -/
structure Edge where
  id : String
  kind : String
  start : String × String
  finish : String × String

def nodeRow (graphId : String) (node : String × String) : Record Datum :=
  [("graph_id", .text graphId), ("kind", .text node.1), ("id", .text node.2)]

def edgeRow (graphId : String) (edge : Edge) : Record Datum :=
  [("graph_id", .text graphId), ("id", .text edge.id), ("kind", .text edge.kind),
    ("from_kind", .text edge.start.1), ("from_id", .text edge.start.2),
    ("to_kind", .text edge.finish.1), ("to_id", .text edge.finish.2)]

/-- The tables of a graph whose nodes and edges have no other columns. -/
def tables (graphId : String) (nodes : List (String × String)) (edges : List Edge) : Table → Bag Datum
  | .nodes => nodes.map (nodeRow graphId)
  | .edges => edges.map (edgeRow graphId)
  | .embeddings => 0

/-- A graph, before any row set has got its rows. -/
def graph (graphId : String) (nodes : List (String × String)) (edges : List Edge) : Context Datum Statement where
  db := db
  tables := tables graphId nodes edges
  relations _ := 0
  answers _ := 0

theorem graph_typed (graphId : String) (nodes : List (String × String)) (edges : List Edge) :
    (graph graphId nodes edges).Typed := by
  intro base record member name mem
  cases base with
  | nodes =>
    obtain ⟨node, -, rfl⟩ := List.mem_map.mp (Multiset.mem_coe.mp member)
    simp only [Table.textNames, List.mem_cons, List.not_mem_nil, or_false] at mem
    rcases mem with rfl | rfl | rfl <;> simp +decide [Engine.field, nodeRow, graph] <;> exact ⟨_, rfl⟩
  | edges =>
    obtain ⟨edge, -, rfl⟩ := List.mem_map.mp (Multiset.mem_coe.mp member)
    simp only [Table.textNames, List.mem_cons, List.not_mem_nil, or_false] at mem
    rcases mem with rfl | rfl | rfl | rfl | rfl | rfl | rfl <;>
      simp +decide [Engine.field, edgeRow, graph] <;> exact ⟨_, rfl⟩
  | embeddings => cases Multiset.notMem_zero _ member

end Datum

end GraphSql
