import GraphSql.Lowering.Hop
import GraphSql.Proofs.Semantics.Renaming
import GraphSql.Proofs.Semantics.Select

namespace GraphSql

open Condition Context Direction Engine List Multiset NodeKey Table Term

variable {ν σ : Type}

namespace Engine

variable {db : Engine ν} {left right : ν}

def IsText (db : Engine ν) (value : ν) : Prop := ∃ content, value = db.text content

/-- The columns hold texts. -/
def HasTexts (db : Engine ν) (names : List String) (record : Record ν) : Prop :=
  ∀ name ∈ names, db.IsText (db.field record name)

theorem equal_yes (isText : db.IsText right) : db.compare .equal left right = .yes ↔ left = right := by
  obtain ⟨content, rfl⟩ := isText
  exact db.equal_text left content

theorem equal_ne_unknown (leftIsText : db.IsText left) (rightIsText : db.IsText right) :
    db.compare .equal left right ≠ .unknown := by
  obtain ⟨first, rfl⟩ := leftIsText
  obtain ⟨second, rfl⟩ := rightIsText
  rw [db.compare_text]
  cases first == second <;> decide

theorem text_injective (db : Engine ν) : Function.Injective db.text := by
  intro first second same
  have equal := (db.equal_text _ second).mpr same
  rw [db.compare_text, Truth.ofBool_eq_yes] at equal
  exact beq_iff_eq.mp equal

/-- The id and the kind of a node. -/
def keyOf (db : Engine ν) (node : Record ν) : ν × ν := (db.field node Column.id.name, db.field node Column.kind.name)

/-- The id and the kind of an alias in a row that carries it. -/
def carriedKey (db : Engine ν) (aliasName : String) (record : Record ν) : ν × ν :=
  (db.field record (carriedName aliasName .id), db.field record (carriedName aliasName .kind))

/-- The kind of the row is one of the kinds. -/
def HasKind (db : Engine ν) (kinds : List String) (record : Record ν) : Prop :=
  ∃ kind ∈ kinds, db.field record Column.kind.name = db.text kind

end Engine

variable (db : Engine ν)

/-- The end of an edge from which a hop in the direction leaves, by its id and its kind. -/
def Direction.nearOf (edge : Record ν) : Direction → ν × ν
  | .outward => (db.field edge Column.fromId.name, db.field edge Column.fromKind.name)
  | .inward => (db.field edge Column.toId.name, db.field edge Column.toKind.name)

/-- The end of an edge that a hop in the direction reaches. -/
def Direction.farOf (edge : Record ν) (direction : Direction) : ν × ν := direction.reversed.nearOf db edge

/-- The edge leads from the start to the node: along the hop by one of its kinds, or against it by
one of its inverse kinds. -/
def Traversal.Leads (hop : Traversal) (start : ν × ν) (edge node : Record ν) : Prop :=
  db.HasKind hop.edgeKinds edge ∧ hop.direction.nearOf db edge = start ∧ hop.direction.farOf db edge = db.keyOf node ∨
    db.HasKind hop.inverseEdgeKinds edge ∧ hop.direction.farOf db edge = start ∧
      hop.direction.nearOf db edge = db.keyOf node

/-- The edge leads from the start to a node of the kinds of the hop, inside of the graph. -/
def Traversal.Connects (hop : Traversal) (graphId : String) (start : ν × ν) (edge node : Record ν) : Prop :=
  db.field edge "graph_id" = db.text graphId ∧
    db.field node "graph_id" = db.text graphId ∧ hop.Leads db start edge node ∧
    (hop.nodeKinds = [] ∨ db.HasKind hop.nodeKinds node)

/-- The columns of a table that identify its rows and what they connect. -/
def Table.textNames : Table → List String
  | .nodes => ["graph_id", "kind", "id"]
  | .edges => ["graph_id", "id", "kind", "from_kind", "from_id", "to_kind", "to_id"]
  | .embeddings => ["graph_id", "node_kind", "node_id", "field_path"]

/-- The identifying columns of all tables hold texts. -/
def Context.Typed (world : Context ν σ) : Prop :=
  ∀ base, ∀ record ∈ world.tables base, world.db.HasTexts base.textNames record

theorem Context.Typed.declare {world : Context ν σ} (typed : world.Typed) (name : String)
    (rows : Bag ν) : (world.declare name rows).Typed := typed

/-- No two nodes of a graph have one id and one kind. -/
def Context.UniqueNodes (world : Context ν σ) : Prop :=
  ((world.tables .nodes).map fun node => (world.db.field node "graph_id", world.db.keyOf node)).Nodup

variable [DecidableEq ν] {world : Context ν σ} {frame : Frame ν} {edge node : Record ν}

section Prepares

variable {isRecursive : Bool} {after : Context ν σ} {rowSets : List (RowSet σ)}
variable (prepares : Level.Prepares isRecursive world rowSets after)
include prepares

theorem Level.Prepares.typed (typed : world.Typed) : after.Typed := by
  unfold Context.Typed
  rw [prepares.tables_eq, prepares.same.1]
  exact typed

theorem Level.Prepares.uniqueNodes (unique : world.UniqueNodes) : after.UniqueNodes := by
  unfold Context.UniqueNodes
  rw [prepares.tables_eq, prepares.same.1]
  exact unique

end Prepares

/-- A condition that holds of nodes with one key only holds of one node at most. -/
theorem Context.UniqueNodes.card_filter_le_one (unique : world.UniqueNodes)
    {condition : Record ν → Prop} [DecidablePred condition]
    (same : ∀ node other, condition node → condition other →
      world.db.field node "graph_id" = world.db.field other "graph_id" ∧ world.db.keyOf node = world.db.keyOf other) :
    ((world.tables .nodes).filter condition).card ≤ 1 := by
  by_cases found : ∃ node, condition node
  · obtain ⟨node, holds⟩ := found
    have once := Multiset.nodup_iff_count_le_one.mp unique (world.db.field node "graph_id", world.db.keyOf node)
    rw [count_map] at once
    refine le_trans (card_le_card (Multiset.monotone_filter_right _ ?_)) once
    intro other otherHolds
    exact Prod.ext (same node other holds otherHolds).1 (same node other holds otherHolds).2
  · rw [filter_eq_nil.mpr fun node _ holds => found ⟨node, holds⟩]
    simp

instance (db : Engine ν) (kinds : List String) (record : Record ν) : Decidable (db.HasKind kinds record) :=
  inferInstanceAs (Decidable (∃ kind ∈ kinds, _ = _))

instance (db : Engine ν) (hop : Traversal) (start : ν × ν) : Decidable (hop.Leads db start edge node) :=
  inferInstanceAs (Decidable (_ ∧ _ ∧ _ ∨ _ ∧ _ ∧ _))

instance (db : Engine ν) (hop : Traversal) (graphId : String) (start : ν × ν) :
    Decidable (hop.Connects db graphId start edge node) :=
  inferInstanceAs (Decidable (_ ∧ _ ∧ _ ∧ (_ ∨ _)))

/-- The value of a key: an id and a kind. -/
def NodeKey.eval (db : Engine ν) (frame : Frame ν) (key : NodeKey) : ν × ν :=
  (key.id.eval db 0 frame, key.kind.eval db 0 frame)

/-- Both parts of the key are texts. -/
def Engine.IsTextKey (key : ν × ν) : Prop := db.IsText key.1 ∧ db.IsText key.2

variable {record : Record ν} {kinds : List String}

section

variable (db : Engine ν)

theorem Term.eval_text (group : Multiset (Frame ν)) (content : String) :
    (text content).eval db group frame = db.text content :=
  db.slot_string content

theorem Term.eval_ofColumn (element : Element)
    (found : frame.lookup (.ofElement element) = some record) (column : Column) :
    (Term.ofColumn element column).eval db 0 frame = db.field record column.name := by
  simp [ofColumn, eval, Engine.read, found]

theorem Term.eval_ofColumn_edge (edgeAt : frame.lookup .edge = some edge) (column : Column) :
    (ofColumn .edge column).eval db 0 frame = db.field edge column.name :=
  eval_ofColumn db .edge edgeAt column

theorem Term.eval_ofColumn_node (nodeAt : frame.lookup .node = some node) (column : Column) :
    (ofColumn .node column).eval db 0 frame = db.field node column.name :=
  eval_ofColumn db .node nodeAt column

end

namespace Condition

theorem truth_equal {left right : Term} (isText : world.db.IsText (right.eval world.db 0 frame)) :
    (equal left right : Condition σ).truth world 0 frame = .yes ↔
      left.eval world.db 0 frame = right.eval world.db 0 frame := by
  simp only [equal, truth]
  exact equal_yes isText

theorem truth_equal_ne_unknown {left right : Term} (leftIsText : world.db.IsText (left.eval world.db 0 frame))
    (rightIsText : world.db.IsText (right.eval world.db 0 frame)) :
    (equal left right : Condition σ).truth world 0 frame ≠ .unknown := by
  simp only [equal, truth]
  exact equal_ne_unknown leftIsText rightIsText

theorem truth_kindIs {term : Term} : (kindIs term kinds : Condition σ).truth world 0 frame = .yes ↔
      ∃ kind ∈ kinds, term.eval world.db 0 frame = world.db.text kind := by
  unfold kindIs
  split
  · simp [equal, truth, eval_text, equal_text]
  · simp [truth, Truth.negateIf, eval_text, equal_text]

theorem truth_kindIs_ne_unknown {term : Term} (isText : world.db.IsText (term.eval world.db 0 frame)) :
    (kindIs term kinds : Condition σ).truth world 0 frame ≠ .unknown := by
  have decided (kind : String) : world.db.compare .equal
      (term.eval world.db 0 frame) (world.db.text kind) ≠ .unknown :=
    equal_ne_unknown isText ⟨kind, rfl⟩
  unfold kindIs
  split
  · simpa [equal, truth, eval_text] using decided _
  · simp only [truth, Truth.negateIf, Bool.false_eq_true, if_false]
    refine Truth.any_ne_unknown ?_
    simp [eval_text, decided]

end Condition

theorem NodeKey.holds_same {first second : NodeKey} (isText : world.db.IsTextKey (second.eval world.db frame)) :
    world.Holds frame (first.same second) ↔ first.eval world.db frame = second.eval world.db frame := by
  simp [same, eval, truth_equal isText.1, truth_equal isText.2]

theorem NodeKey.eval_node (db : Engine ν) (nodeAt : frame.lookup .node = some node) :
    NodeKey.node.eval db frame = db.keyOf node := by
  simp [NodeKey.node, eval, Engine.keyOf, eval_ofColumn_node db nodeAt]

namespace Direction

theorem eval_near (db : Engine ν) (edgeAt : frame.lookup .edge = some edge) (direction : Direction) :
    direction.near.eval db frame = direction.nearOf db edge := by
  cases direction <;> simp [near, nearOf, NodeKey.eval, eval_ofColumn_edge db edgeAt]

theorem eval_far (db : Engine ν) (edgeAt : frame.lookup .edge = some edge)
    (direction : Direction) : direction.far.eval db frame = direction.farOf db edge :=
  eval_near db edgeAt direction.reversed

variable {db : Engine ν} (typed : db.HasTexts edges.textNames edge) (direction : Direction)

include typed

omit [DecidableEq ν] in
theorem isTextKey_nearOf : db.IsTextKey (direction.nearOf db edge) := by
  have column (name : String) (mem : name ∈ edges.textNames) : db.IsText (db.field edge name) := typed name mem
  cases direction <;> exact ⟨column _ (by decide), column _ (by decide)⟩

omit [DecidableEq ν] in
theorem isTextKey_farOf : db.IsTextKey (direction.farOf db edge) := isTextKey_nearOf typed direction.reversed

end Direction

namespace Traversal

variable {start : NodeKey}

theorem truth_edgeKindIs (edgeAt : frame.lookup .edge = some edge) (kinds : List String) :
    (edgeKindIs kinds : Condition σ).truth world 0 frame = .yes ↔ world.db.HasKind kinds edge := by
  rw [edgeKindIs, truth_kindIs, eval_ofColumn_edge _ edgeAt]
  rfl

theorem truth_leavesFrom (edgeAt : frame.lookup .edge = some edge)
    (isText : world.db.IsTextKey (start.eval world.db frame)) (direction : Direction)
    (kinds : List String) :
    (leavesFrom start direction kinds : Condition σ).truth world 0 frame = .yes ↔ world.db.HasKind kinds edge ∧
        direction.nearOf world.db edge = start.eval world.db frame := by
  rw [leavesFrom, truth_all, holds_cons, truth_edgeKindIs edgeAt, holds_same isText, eval_near _ edgeAt]

omit [DecidableEq ν] in
theorem not_hasKind_nil (db : Engine ν) (record : Record ν) : ¬ db.HasKind [] record := by
  simp [Engine.HasKind]

/-- The node has the one key where the guard holds, and the other key elsewhere. -/
theorem holds_equalsCase {key first second : NodeKey} {guard : Condition σ}
    (firstIsText : world.db.IsTextKey (first.eval world.db frame))
    (secondIsText : world.db.IsTextKey (second.eval world.db frame)) :
    world.Holds frame [.equalsCase key.id guard first.id second.id,
          .equalsCase key.kind guard first.kind second.kind] ↔
      key.eval world.db frame = if guard.truth world 0 frame = .yes then first.eval world.db frame
        else second.eval world.db frame := by
  simp only [holds_cons, holds_nil, and_true, truth, NodeKey.eval]
  split
  · exact (and_congr (equal_yes firstIsText.1) (equal_yes firstIsText.2)).trans Prod.mk_inj.symm
  · exact (and_congr (equal_yes secondIsText.1) (equal_yes secondIsText.2)).trans Prod.mk_inj.symm

theorem holds_nodeKinds (hop : Traversal) (nodeAt : frame.lookup .node = some node) : world.Holds frame
        (if hop.nodeKinds.isEmpty then []
          else [kindIs (.ofColumn .node .kind) hop.nodeKinds]) ↔
      (hop.nodeKinds = [] ∨ world.db.HasKind hop.nodeKinds node) := by
  by_cases none : hop.nodeKinds = []
  · simp [none]
  · simp [none, truth_kindIs, eval_ofColumn_node _ nodeAt, Engine.HasKind]

section

variable (hop : Traversal) {before : Frame ν} (edgeBefore : before.lookup .edge = some edge)
  (edgeAt : frame.lookup .edge = some edge) (nodeAt : frame.lookup .node = some node)
  (startAt : start.eval world.db before = start.eval world.db frame)
  (isText : world.db.IsTextKey (start.eval world.db frame))
  (typed : world.db.HasTexts edges.textNames edge)

include edgeBefore edgeAt nodeAt startAt isText typed

theorem holds_alongOnly (inverse : hop.inverseEdgeKinds = []) : (world.Holds before (hop.direction.near.same start) ∧
        world.Holds frame (NodeKey.node.same hop.direction.far) ∧
        world.db.HasKind hop.edgeKinds edge) ↔
      hop.Leads world.db (start.eval world.db frame) edge node := by
  have farIsText := isTextKey_farOf typed hop.direction
  rw [← eval_far world.db edgeAt] at farIsText
  rw [← startAt] at isText
  rw [holds_same isText, holds_same farIsText, startAt, eval_near _ edgeBefore, eval_far _ edgeAt, eval_node _ nodeAt]
  simp only [Leads, inverse, not_hasKind_nil, false_and, or_false]
  constructor
  · rintro ⟨leaves, arrives, kind⟩
    exact ⟨kind, leaves, arrives.symm⟩
  · rintro ⟨kind, leaves, arrives⟩
    exact ⟨leaves, arrives.symm, kind⟩

theorem holds_againstOnly (direct : hop.edgeKinds = []) :
    (world.Holds before [leavesFrom start hop.direction.reversed hop.inverseEdgeKinds] ∧
        world.Holds frame (NodeKey.node.same hop.direction.near)) ↔
      hop.Leads world.db (start.eval world.db frame) edge node := by
  have nearIsText := Direction.isTextKey_nearOf typed hop.direction
  rw [← eval_near world.db edgeAt] at nearIsText
  rw [← startAt] at isText
  rw [holds_cons, truth_leavesFrom edgeBefore isText, holds_same nearIsText, startAt,
    eval_near _ edgeAt, eval_node _ nodeAt]
  simp only [Leads, direct, not_hasKind_nil, false_and, false_or, holds_nil, and_true]
  constructor
  · rintro ⟨⟨kind, leaves⟩, arrives⟩
    exact ⟨kind, leaves, arrives.symm⟩
  · rintro ⟨kind, leaves, arrives⟩
    exact ⟨⟨kind, leaves⟩, arrives.symm⟩

/-- The conditions of a hop which follows edges both ways. An edge that may be followed along the
direction of the hop is not followed against it. -/
theorem holds_eitherWay : (world.Holds before [.any [leavesFrom start hop.direction hop.edgeKinds,
            leavesFrom start hop.direction.reversed hop.inverseEdgeKinds]] ∧
        world.Holds frame [.equalsCase NodeKey.node.id (leavesFrom start hop.direction hop.edgeKinds)
              hop.direction.far.id hop.direction.near.id,
            .equalsCase NodeKey.node.kind (leavesFrom start hop.direction hop.edgeKinds)
              hop.direction.far.kind hop.direction.near.kind]) ↔
      hop.Leads world.db (start.eval world.db frame) edge node := by
  have nearIsText := isTextKey_nearOf typed hop.direction
  have farIsText := isTextKey_farOf typed hop.direction
  have forward : (leavesFrom start hop.direction hop.edgeKinds : Condition σ).truth world 0 frame =
      .yes ↔ _ := truth_leavesFrom edgeAt isText hop.direction hop.edgeKinds
  rw [← eval_near world.db edgeAt] at nearIsText
  rw [← eval_far world.db edgeAt] at farIsText
  rw [← startAt] at isText
  rw [holds_equalsCase farIsText nearIsText, holds_cons, truth_any,
    eval_near _ edgeAt, eval_far _ edgeAt, eval_node _ nodeAt]
  simp only [Leads, List.mem_cons, not_mem_nil, or_false, exists_eq_or_imp, exists_eq_left,
    holds_nil, and_true, truth_leavesFrom edgeBefore isText, startAt]
  by_cases followed : world.db.HasKind hop.edgeKinds edge ∧
      hop.direction.nearOf world.db edge = start.eval world.db frame
  · rw [if_pos (forward.mpr followed)]
    constructor
    · rintro ⟨-, arrives⟩
      exact .inl ⟨followed.1, followed.2, arrives.symm⟩
    · rintro (⟨-, -, arrives⟩ | ⟨-, leaves, arrives⟩)
      · exact ⟨.inl followed, arrives.symm⟩
      · -- An edge that may also be followed back leads from the start to itself.
        exact ⟨.inl followed, arrives.symm.trans (followed.2.trans leaves.symm)⟩
  · rw [if_neg fun taken => followed (forward.mp taken)]
    constructor
    · rintro ⟨along | ⟨kind, leaves⟩, arrives⟩
      · exact absurd along followed
      · exact .inr ⟨kind, leaves, arrives.symm⟩
    · rintro (⟨kind, leaves, -⟩ | ⟨kind, leaves, arrives⟩)
      · exact absurd ⟨kind, leaves⟩ followed
      · exact ⟨.inr ⟨kind, leaves⟩, arrives.symm⟩

/-- The conditions of a hop hold of the edges that lead to nodes of its kinds. Those on the edge are
checked before the node is in reach. -/
theorem holds_hop : (world.Holds before (hop.edgeConditions start) ∧ world.Holds frame (hop.nodeConditions start) ∧
        world.Holds frame hop.kindConditions) ↔
      hop.Leads world.db (start.eval world.db frame) edge node ∧
        (hop.nodeKinds = [] ∨ world.db.HasKind hop.nodeKinds node) := by
  unfold kindConditions edgeConditions nodeConditions
  rw [holds_append, holds_nodeKinds hop nodeAt, ← and_assoc, ← and_assoc]
  apply and_congr_left'
  by_cases inverse : hop.inverseEdgeKinds = []
  · rw [← holds_alongOnly hop edgeBefore edgeAt nodeAt startAt isText typed inverse, ← and_assoc]
    simp [inverse, truth_edgeKindIs edgeAt]
  · by_cases direct : hop.edgeKinds = []
    · rw [← holds_againstOnly hop edgeBefore edgeAt nodeAt startAt isText typed direct]
      simp [inverse, direct]
    · rw [← holds_eitherWay hop edgeBefore edgeAt nodeAt startAt isText typed]
      simp [inverse, direct]

theorem holds_joins (graphId : String) :
    (world.Holds before (.equal (graphColumn .edge) (.text graphId) :: hop.edgeConditions start) ∧
        world.Holds frame (.equal (graphColumn .node) (graphColumn .edge) :: hop.nodeConditions start) ∧
        world.Holds frame hop.kindConditions) ↔
      hop.Connects world.db graphId (start.eval world.db frame) edge node := by
  have inGraph : (equal (graphColumn .edge) (.text graphId) : Condition σ).truth world 0 before = .yes ↔
      world.db.field edge "graph_id" = world.db.text graphId := by
    simp [Condition.equal, Condition.truth, eval_text, graphColumn, Term.eval, Engine.read,
      edgeBefore, Engine.equal_text]
  have together : (Condition.equal (graphColumn .node) (graphColumn .edge) : Condition σ).truth world 0 frame = .yes ↔
      world.db.field node "graph_id" = world.db.field edge "graph_id" := by
    simp only [Condition.equal, Condition.truth, graphColumn, Term.eval, Engine.read, edgeAt, nodeAt, Option.getD_some]
    exact Engine.equal_yes (typed _ (by decide))
  have holds := holds_hop hop edgeBefore edgeAt nodeAt startAt isText typed
  rw [holds_cons, holds_cons, inGraph, together, Connects, ← holds]
  grind

end

end Traversal

/-- Every edge with every node. -/
def Context.pairs (world : Context ν σ) : Multiset (Record ν × Record ν) :=
  (world.tables .edges).bind fun edge => (world.tables .nodes).map fun node => (edge, node)

omit [DecidableEq ν] in
@[simp] theorem Context.pairs_declare (world : Context ν σ) (name : String) (rows : Bag ν) :
    (world.declare name rows).pairs = world.pairs := rfl

omit [DecidableEq ν] in
theorem Context.mem_pairs {pair : Record ν × Record ν} (mem : pair ∈ world.pairs) :
    pair.1 ∈ world.tables .edges ∧ pair.2 ∈ world.tables .nodes := by
  obtain ⟨edge, inEdges, paired⟩ := mem_bind.mp mem
  obtain ⟨node, inNodes, rfl⟩ := Multiset.mem_map.mp paired
  exact ⟨inEdges, inNodes⟩

variable {select : Select σ}

/-- The rows in reach of a SELECT that joins an edge and a node to each row of its source. -/
theorem Select.frames_hop (world : Context ν σ) {ordered : Bool} {ofEdge ofNode : List (Condition σ)}
    (joins : select.joins = [{ ordered, source := .table .edges, conditions := ofEdge },
      { source := .table .nodes, conditions := ofNode }]) :
    select.frames world = (select.source.records world).bind fun record =>
        (world.pairs.filter fun pair =>
          world.Holds [(select.source.row, record), (.edge, pair.1)] ofEdge ∧
            world.Holds [(select.source.row, record), (.edge, pair.1), (.node, pair.2)]
              (ofNode ++ select.conditions)).map fun pair =>
                [(select.source.row, record), (.edge, pair.1), (.node, pair.2)] := by
  unfold Select.frames
  rw [joins]
  simp only [Join.extendAll, bind_map, filter_bind, bind_assoc]
  refine Multiset.bind_congr fun record _ => ?_
  rw [Join.extend_inner world rfl, bind_map, bind_filter, pairs, filter_bind, Multiset.map_bind]
  refine Multiset.bind_congr fun edge _ => ?_
  rw [Join.extend_inner world rfl, Multiset.filter_map, Multiset.filter_filter, Multiset.filter_map, Multiset.map_map]
  by_cases holds : world.Holds [(select.source.row, record), (.edge, edge)] ofEdge
  · simp [holds, row, and_comm]
  · simp [holds, row]

theorem Select.frames_pairs (world : Context ν σ) {ofNode : List (Condition σ)}
    (source : select.source = .table .edges)
    (joins : select.joins = [{ source := .table .nodes, conditions := ofNode }]) :
    select.frames world = (world.pairs.filter fun pair =>
        world.Holds [(.edge, pair.1), (.node, pair.2)] (ofNode ++ select.conditions)).map
          fun pair => [(.edge, pair.1), (.node, pair.2)] := by
  unfold Select.frames
  rw [source, joins, pairs]
  simp only [Join.extendAll, Source.records_table, Source.row_table, row, bind_map, filter_bind, Multiset.map_bind]
  refine Multiset.bind_congr fun edge _ => ?_
  rw [Join.extend_inner world rfl, Multiset.filter_map, Multiset.filter_filter, Multiset.filter_map, Multiset.map_map]
  simp [row, and_comm]

theorem NodeKey.eval_carried (db : Engine ν) {row : Row}
    (found : frame.lookup row = some record) (aliasName : String) :
    (NodeKey.carried row aliasName).eval db frame = db.carriedKey aliasName record := by
  simp [carried, eval, Engine.carriedKey, Term.eval, Engine.read, found]

variable {row : Row} {hop : Traversal} {ordered : Bool} {further : List (Condition σ)}
variable (typed : world.Typed)

include typed

/-- The rows in reach of a SELECT that follows a hop from the rows of its source: each of these rows
with the edges that connect it with a node. -/
theorem Select.frames_leads {aliasName graphId : String} (arrived : ∀ current ∈ select.source.records world,
      world.db.IsTextKey (world.db.carriedKey aliasName current))
    (source : select.source.row = row) (notEdge : row ≠ .edge) (notNode : row ≠ .node)
    (joins : select.joins = hop.joins graphId (.carried row aliasName) ordered)
    (conditions : select.conditions = hop.kindConditions ++ further) :
    select.frames world = (select.source.records world).bind fun current =>
        (world.pairs.filter fun pair =>
          hop.Connects world.db graphId (world.db.carriedKey aliasName current) pair.1 pair.2 ∧
            world.Holds [(row, current), (.edge, pair.1), (.node, pair.2)] further).map fun pair =>
              [(row, current), (.edge, pair.1), (.node, pair.2)] := by
  rw [Select.frames_hop world joins, source]
  refine Multiset.bind_congr fun current mem => ?_
  refine congrArg _ (Multiset.filter_congr fun pair member => ?_)
  have edgeAt (rest : Frame ν) : lookup .edge ((row, current) :: (.edge, pair.1) :: rest) = some pair.1 := by
    rw [lookup_cons, beq_false_of_ne notEdge.symm, lookup_cons_self]
  have nodeAt : lookup .node [(row, current), (.edge, pair.1), (.node, pair.2)] = some pair.2 := by
    rw [lookup_cons, beq_false_of_ne notNode.symm]
    rfl
  have start (rest : Frame ν) : (carried row aliasName).eval world.db
      ((row, current) :: rest) = world.db.carriedKey aliasName current :=
    eval_carried _ lookup_cons_self _
  have isText := arrived current mem
  rw [← start [(.edge, pair.1), (.node, pair.2)]] at isText ⊢
  rw [← Traversal.holds_joins hop (edgeAt []) (edgeAt _) nodeAt ((start _).trans (start _).symm)
    isText (typed .edges pair.1 (mem_pairs member).1), conditions]
  simp [and_assoc]

end GraphSql
