import GraphSql.Proofs.Equivalence.Carrying

namespace GraphSql

open Context Decisions Engine List Multiset Term Text Traced

variable {ν : Type}

/-- A hop with the conditions that are placed there. -/
structure Link where
  hop : Traversal
  placed : Conditions

variable {record : Record ν} {rows : Bag ν}

section Meaning

variable [DecidableEq ν] {world : Context ν Statement}

namespace Block

variable {block : Block Nested} {env : Setting} {picks : Decisions}

theorem record_tableColumns (block : Block Nested) (picks : Decisions) {aliasName : String}
    {frame : Frame ν} (found : frame.lookup (.ofElement (block.elementOf aliasName)) = some record)
    (db : Engine ν) :
    (block.tableColumns picks aliasName).flatMap (OutputColumn.record db 0 frame) =
      db.carry (picks.carried aliasName) aliasName record := by
  simp only [tableColumns, flatMap_map, OutputColumn.record, eval_ofColumn db _ found, carry]
  exact map_eq_flatMap.symm

/-- The SELECT of the start nodes, with the predicates that are placed there. -/
def startSelect (block : Block Nested) (env : Setting) (picks : Decisions)
    (placed : Conditions) : Select Statement where
  columns := block.tableColumns picks block.start.aliasName
  source := .table .nodes
  conditions := block.startConditions env.graphId ++ block.temporal.conditions picks.now .node ++ placed

/-- The start nodes of a query. -/
def starts (block : Block Nested) (env : Setting) (picks : Decisions)
    (placed : Conditions) (world : Context ν Statement) : Bag ν :=
  (world.tables .nodes).filter fun node => world.Holds [(.node, node)] (block.startSelect env picks placed).conditions

/-- The row of a start node. -/
def startRow (block : Block Nested) (picks : Decisions) (db : Engine ν) (node : Record ν) : Record ν :=
  db.carry (picks.carried block.start.aliasName) block.start.aliasName node

/-- The rows of the start nodes. -/
abbrev startRows (block : Block Nested) (env : Setting) (picks : Decisions)
    (placed : Conditions) (world : Context ν Statement) : Bag ν :=
  (block.starts env picks placed world).map (block.startRow picks world.db)

variable {placed : Conditions} {node : Record ν}

theorem frames_startSelect : (block.startSelect env picks placed).frames world =
      (block.starts env picks placed world).map fun node => [(.node, node)] := by
  simp only [Select.frames, startSelect, Join.extendAll, Source.records_table, Source.row_table,
    Multiset.filter_map, starts, Table.row]
  rfl

theorem isPlain_of_tableColumns (block : Block Nested) (picks : Decisions) (aliasName : String) :
    ∀ column ∈ block.tableColumns picks aliasName, column.isAggregate = false := by
  intro column mem
  obtain ⟨carried, -, rfl⟩ := List.mem_map.mp mem
  rfl

theorem returns_startSelect : (block.startSelect env picks placed).Returns world rows ↔
      rows = block.startRows env picks placed world := by
  have plain : (block.startSelect env picks placed).IsPlain := ⟨rfl, rfl, block.isPlain_of_tableColumns picks _, rfl⟩
  rw [plain.returns_iff, frames_startSelect, Multiset.map_map]
  have row (node : Record ν) : (block.startSelect env picks placed).output world 0 [(.node, node)] =
        block.startRow picks world.db node := by
    have found : lookup (Row.ofElement (block.elementOf block.start.aliasName)) [(.node, node)] = some node := by
      rw [elementOf_start]
      rfl
    exact record_tableColumns block picks found world.db
  simp only [Function.comp_def, row]

theorem spec_of_mem_starts (mem : node ∈ block.starts env picks placed world) :
    node ∈ world.tables .nodes ∧ world.db.field node "graph_id" = world.db.text env.graphId ∧
      world.db.HasKind block.start.kinds node := by
  obtain ⟨inNodes, holds⟩ := Multiset.mem_filter.mp mem
  simp only [startSelect, startConditions, holds_append, holds_cons] at holds
  obtain ⟨⟨⟨inGraph, kindIs, -⟩, -⟩, -⟩ := holds
  refine ⟨inNodes, ?_, ?_⟩
  · rw [Condition.truth_equal ⟨env.graphId, eval_text ..⟩, eval_text] at inGraph
    simpa [graphColumn, Term.eval, Engine.read] using inGraph
  · have found : List.lookup Row.node [(.node, node)] = some node := rfl
    rw [Condition.truth_kindIs, eval_ofColumn_node _ found] at kindIs
    exact kindIs

theorem isTextKey_of_mem_starts (typed : world.Typed) (mem : node ∈ block.starts env picks placed world) :
    world.db.IsTextKey (world.db.keyOf node) := by
  have texts := typed .nodes node (spec_of_mem_starts mem).1
  exact ⟨texts _ (by decide), texts _ (by decide)⟩

theorem nodup_starts (unique : world.UniqueNodes) :
    ((block.starts env picks placed world).map world.db.keyOf).Nodup := by
  have distinct : ((block.starts env picks placed world).map fun node =>
      (world.db.field node "graph_id", world.db.keyOf node)).Nodup :=
    nodup_of_le (map_le_map (filter_le _ _)) unique
  refine Multiset.Nodup.of_map (world.db.text env.graphId, ·) ?_
  rw [Multiset.map_map]
  rwa [Multiset.map_congr rfl fun node mem =>
    show _ = (world.db.field node "graph_id", world.db.keyOf node) by
      rw [(spec_of_mem_starts mem).2.1]; rfl]

/-- The SELECT of a hop from the start nodes, with the predicates that are placed there. -/
def hopSelect (block : Block Nested) (env : Setting) (picks : Decisions) (hop : Traversal)
    (placed : Conditions) : Select Statement where
  columns := handedColumns picks hop ++ block.tableColumns picks hop.edgeAlias ++ block.tableColumns picks hop.nodeAlias
  source := .relation (env.rowSetName hop.joinFrom) (some .source)
  joins := hop.joins env.graphId (.carried .source hop.joinFrom) false
  conditions := hop.kindConditions ++ (block.hopVisibility picks ++ placed)

/-- The edges and nodes that the hop connects a key with, as far as the conditions hold of them. -/
def connections (block : Block Nested) (env : Setting) (picks : Decisions) (hop : Traversal)
    (placed : Conditions) (world : Context ν Statement) (key : ν × ν) :
    Multiset (Record ν × Record ν) :=
  world.pairs.filter fun pair =>
    hop.Connects world.db env.graphId key pair.1 pair.2 ∧
      world.Holds [(.edge, pair.1), (.node, pair.2)] (block.hopVisibility picks ++ placed)

/-- Visibility is a matter of the edge and the node alone. -/
theorem hopVisibility_ofElement (fit : picks.Fit block) :
    ∀ condition ∈ block.hopVisibility picks, ∀ reference ∈ condition.references, reference.OfElement := by
  intro condition mem
  have admits (element : Element) (member : condition ∈ block.temporal.conditions picks.now element) :
      condition.Admits Reference.OfElement fun _ => True :=
    (judges_admits _ _).visibility block.temporal fit.now
      (fun column _ => ofColumn_readsElement element column) condition member
  rcases mem_append.mp mem with ofEdge | ofNode
  · exact (admits .edge ofEdge).references
  · exact (admits .node ofNode).references

/-- The conditions of a hop that its joins do not check are a matter of the edge and the node. -/
theorem holds_hopConditions (fit : picks.Fit block) (reads : Condition.ReadElements placed)
    {frame other : Frame ν} (edge : frame.lookup .edge = other.lookup .edge)
    (node : frame.lookup .node = other.lookup .node) :
    world.Holds frame (block.hopVisibility picks ++ placed) ↔
      world.Holds other (block.hopVisibility picks ++ placed) :=
  holds_of_element (fun condition mem => (mem_append.mp mem).elim
      (hopVisibility_ofElement fit condition) (reads condition)) edge node

/-- The SELECT of a hop, from where its rows come. -/
def linkSelect (block : Block Nested) (env : Setting) (picks : Decisions) (link : Link) : Select Statement where
  columns :=
    handedColumns picks link.hop ++ block.tableColumns picks link.hop.edgeAlias ++
      block.tableColumns picks link.hop.nodeAlias
  source := block.hopSource env picks link.hop
  joins := link.hop.joins env.graphId (.carried .source link.hop.joinFrom) false
  conditions := link.hop.kindConditions ++ (block.hopVisibility picks ++ link.placed)

/-- What a hop hands on from a row that it starts from. -/
def handedOn (picks : Decisions) (db : Engine ν) (hop : Traversal) (current : Record ν) : Record ν :=
  if picks.collapse then current
  else
    [(carriedName hop.joinFrom .id, (db.carriedKey hop.joinFrom current).1),
      (carriedName hop.joinFrom .kind, (db.carriedKey hop.joinFrom current).2)]

variable {link : Link}

theorem linkSelect_isPlain (block : Block Nested) (env : Setting) (picks : Decisions)
    (link : Link) : (block.linkSelect env picks link).IsPlain := by
  refine ⟨rfl, rfl, ?_, rfl⟩
  intro column mem
  rcases mem_append.mp mem with before | ofNode
  · rcases mem_append.mp before with handed | ofEdge
    · unfold handedColumns at handed
      split at handed
      · obtain rfl := List.mem_singleton.mp handed
        rfl
      · obtain ⟨carried, -, rfl⟩ := List.mem_map.mp handed
        rfl
    · exact block.isPlain_of_tableColumns picks _ column ofEdge
  · exact block.isPlain_of_tableColumns picks _ column ofNode

theorem output_linkSelect (bound : block.Bound) (env : Setting)
    (mem : link.hop ∈ block.traversals) (world : Context ν Statement) (current : Record ν)
    (pair : Record ν × Record ν) :
    (block.linkSelect env picks link).output world 0 [(.source, current), (.edge, pair.1), (.node, pair.2)] =
      handedOn picks world.db link.hop current ++
        world.db.carry (picks.carried link.hop.edgeAlias) link.hop.edgeAlias pair.1 ++
        world.db.carry (picks.carried link.hop.nodeAlias) link.hop.nodeAlias pair.2 := by
  have ofEdge : lookup (Row.ofElement (block.elementOf link.hop.edgeAlias))
      [(.source, current), (.edge, pair.1), (.node, pair.2)] = some pair.1 := by
    rw [bound.elementOf_edge mem]
    rfl
  have ofNode : lookup (Row.ofElement (block.elementOf link.hop.nodeAlias))
      [(.source, current), (.edge, pair.1), (.node, pair.2)] = some pair.2 := by
    rw [bound.elementOf_node mem]
    rfl
  have handed : (handedColumns picks link.hop).flatMap (OutputColumn.record world.db 0
      [(.source, current), (.edge, pair.1), (.node, pair.2)]) =
      handedOn picks world.db link.hop current := by
    unfold handedColumns handedOn
    split
    · exact append_nil current
    · rfl
  simp [Select.output, linkSelect, handed, record_tableColumns block picks ofEdge,
    record_tableColumns block picks ofNode]

/-- A hop reads each row that it starts from with its connections. -/
theorem returns_linkSelect (link : Link) (bound : block.Bound) (fit : picks.Fit block)
    (typed : world.Typed) (mem : link.hop ∈ block.traversals)
    (reads : Condition.ReadElements link.placed)
    (arrived : ∀ current ∈ (block.hopSource env picks link.hop).records world,
      world.db.IsTextKey (world.db.carriedKey link.hop.joinFrom current)) :
    (block.linkSelect env picks link).Returns world rows ↔
      rows = ((block.hopSource env picks link.hop).records world).bind fun current =>
        (block.connections env picks link.hop link.placed world
          (world.db.carriedKey link.hop.joinFrom current)).map fun pair =>
            handedOn picks world.db link.hop current ++
              world.db.carry (picks.carried link.hop.edgeAlias) link.hop.edgeAlias pair.1 ++
              world.db.carry (picks.carried link.hop.nodeAlias) link.hop.nodeAlias pair.2 := by
  have row : (block.linkSelect env picks link).source.row = .source := by
    unfold linkSelect hopSource
    dsimp only
    split <;> rfl
  rw [(block.linkSelect_isPlain env picks link).returns_iff,
    Select.frames_leads typed arrived row (by decide) (by decide) rfl rfl, Multiset.map_bind]
  refine iff_of_eq (congrArg (rows = ·) (Multiset.bind_congr fun current _ => ?_))
  rw [Multiset.map_map]
  have same : (world.pairs.filter fun pair =>
      link.hop.Connects world.db env.graphId (world.db.carriedKey link.hop.joinFrom current) pair.1 pair.2 ∧
        world.Holds [(.source, current), (.edge, pair.1), (.node, pair.2)]
          (block.hopVisibility picks ++ link.placed)) =
      block.connections env picks link.hop link.placed world (world.db.carriedKey link.hop.joinFrom current) :=
    Multiset.filter_congr fun pair _ => and_congr_right fun _ => holds_hopConditions fit reads rfl rfl
  rw [same]
  exact Multiset.map_congr rfl fun pair _ => output_linkSelect bound env mem world current pair

/-- The row of a connection from a start node. -/
def hopRow (picks : Decisions) (hop : Traversal) (db : Engine ν) (key : ν × ν)
    (pair : Record ν × Record ν) : Record ν :=
  [(carriedName hop.joinFrom .id, key.1), (carriedName hop.joinFrom .kind, key.2)] ++
    db.carry (picks.carried hop.edgeAlias) hop.edgeAlias pair.1 ++
    db.carry (picks.carried hop.nodeAlias) hop.nodeAlias pair.2

/-- The rows of the connections of a key. -/
abbrev keyRows (block : Block Nested) (env : Setting) (picks : Decisions) (hop : Traversal)
    (placed : Conditions) (world : Context ν Statement) (key : ν × ν) : Bag ν :=
  (block.connections env picks hop placed world key).map (hopRow picks hop world.db key)

omit [DecidableEq ν] in
theorem carriedKey_hopRow (picks : Decisions) (hop : Traversal) (db : Engine ν)
    (key : ν × ν) (pair : Record ν × Record ν) :
    db.carriedKey hop.joinFrom (hopRow picks hop db key pair) = key := carriedKey_cons db _ key _

section

variable {other : Context ν Statement} (db : other.db = world.db)
variable (tables : other.tables = world.tables) (answers : other.answers = world.answers)

include db tables answers

theorem starts_of_same : block.starts env picks placed other = block.starts env picks placed world := by
  simp only [starts, tables, holds_of_same db answers]

theorem connections_of_same (hop : Traversal) : block.connections env picks hop placed other =
      block.connections env picks hop placed world := by
  funext key
  simp only [connections, pairs, db, tables, holds_of_same db answers]

end

@[simp] theorem starts_declare (name : String) (rows : Bag ν) :
    block.starts env picks placed (world.declare name rows) = block.starts env picks placed world :=
  starts_of_same (world.engine_declare ..) (world.tables_declare ..) (world.answers_declare ..)

@[simp] theorem connections_declare (hop : Traversal) (name : String) (rows : Bag ν) :
    block.connections env picks hop placed (world.declare name rows) = block.connections env picks hop placed world :=
  connections_of_same (world.engine_declare ..) (world.tables_declare ..) (world.answers_declare ..) hop

section

variable (block : Block Nested) (env : Setting) (picks : Decisions)

/-- The level of a chain of one hop. -/
def hopLevel (hop : Traversal) (early placed : Conditions) (select : Select Statement) : Level Statement where
  rowSets :=
    [{ name := env.rowSetName block.start.aliasName
       members := [block.startSelect env picks early] },
      { name := env.rowSetName hop.nodeAlias
        members := [block.hopSelect env picks hop placed] }]
  select := select

/-- The rows of the two row sets of a chain of one hop. -/
def hopContext (hop : Traversal) (early placed : Conditions) (world : Context ν Statement) : Context ν Statement :=
  (world.declare (env.rowSetName block.start.aliasName) ((block.starts env picks early world).map
      (block.startRow picks world.db))).declare (env.rowSetName hop.nodeAlias)
    ((block.starts env picks early world).bind fun node =>
      (block.connections env picks hop placed world (world.db.keyOf node)).map
        (hopRow picks hop world.db (world.db.keyOf node)))

/-- The rows in reach of the final SELECT: each start node with its connections. -/
def rejoined (hop : Traversal) (early placed : Conditions) (world : Context ν Statement) : Multiset (Frame ν) :=
  (block.starts env picks early world).bind fun node =>
    rejoin (if hop.optional then .left else .inner) (env.rowSetName block.start.aliasName)
      (env.rowSetName hop.nodeAlias)
      ((block.connections env picks hop placed world (world.db.keyOf node)).map
        (hopRow picks hop world.db (world.db.keyOf node)))
      (block.startRow picks world.db node)

end

omit [DecidableEq ν] in
theorem carriedKey_startRow (fit : picks.Fit block) (db : Engine ν) (node : Record ν) :
    db.carriedKey block.start.aliasName (block.startRow picks db node) = db.keyOf node :=
  carriedKey_carry (fit.id _) (fit.kind _ block.elementOf_start)

theorem result_startRowSet (unsearched : picks.vector = none) :
    (block.startRowSet env picks).result = (block.loweredStart env picks).map fun placed =>
        { name := env.rowSetName block.start.aliasName
          members := [block.startSelect env picks placed] } := by
  have noVector : picks.vectorParts block.start.aliasName = {} := by simp [vectorParts, unsearched]
  unfold startRowSet
  simp only [result_bind, result_pure, noVector, append_nil]
  exact bind_pure_comp _ _

/-- A query with one hop, from its start, whose decisions take no other shortcut than counts. -/
structure OneHop (block : Block Nested) (picks : Decisions) (hop : Traversal) : Prop where
  bound : block.Bound
  fit : picks.Fit block
  traversals : block.traversals = [hop]
  vector : picks.vector = none
  collapse : picks.collapse = false

namespace OneHop

variable {hop : Traversal} (one : block.OneHop picks hop)

include one

theorem mem : hop ∈ block.traversals := by
  rw [one.traversals]
  exact List.mem_singleton_self hop

theorem joinFrom : hop.joinFrom = block.start.aliasName := by
  have joins := one.bound.joins
  rw [one.traversals] at joins
  exact List.mem_singleton.mp joins.1

omit [DecidableEq ν] in
theorem carriedKey_startRow (db : Engine ν) (node : Record ν) :
    db.carriedKey block.start.aliasName (block.startRow picks db node) = db.keyOf node :=
  Block.carriedKey_startRow one.fit db node

theorem isTextKey_startRow (typed : world.Typed) {early : Conditions}
    (mem : record ∈ block.startRows env picks early world) :
    world.db.IsTextKey (world.db.carriedKey block.start.aliasName record) := by
  obtain ⟨node, inStarts, rfl⟩ := Multiset.mem_map.mp mem
  rw [one.carriedKey_startRow]
  exact isTextKey_of_mem_starts typed inStarts

variable {early placed : Conditions}

theorem hopSource_eq : block.hopSource env picks hop = .relation (env.rowSetName hop.joinFrom) (some .source) := by
  simp [hopSource, one.joinFrom]

theorem returns_hopSelect (typed : world.Typed) (reads : Condition.ReadElements placed)
    (declared : world.relations (env.rowSetName hop.joinFrom) = block.startRows env picks early world) :
    (block.hopSelect env picks hop placed).Returns world rows ↔
      rows = (block.starts env picks early world).bind fun node =>
        block.keyRows env picks hop placed world (world.db.keyOf node) := by
  have key (node : Record ν) : world.db.carriedKey hop.joinFrom
      (block.startRow picks world.db node) = world.db.keyOf node := by
    rw [one.joinFrom]
    exact one.carriedKey_startRow world.db node
  have records : (block.hopSource env picks hop).records world = block.startRows env picks early world := by
    rw [one.hopSource_eq]
    exact declared
  have arrived : ∀ current ∈ (block.hopSource env picks hop).records world,
      world.db.IsTextKey (world.db.carriedKey hop.joinFrom current) := by
    intro current mem
    rw [records] at mem
    rw [one.joinFrom]
    exact one.isTextKey_startRow typed mem
  have select : block.hopSelect env picks hop placed = block.linkSelect env picks ⟨hop, placed⟩ := by
    rw [linkSelect, one.hopSource_eq]
    rfl
  rw [select, returns_linkSelect ⟨hop, placed⟩ one.bound one.fit typed one.mem reads arrived, records, bind_map]
  simp only [key, handedOn, one.collapse]
  rfl

/-- The row set of the hop. Nothing joins from it, so that it is not bounded. -/
theorem result_hopRowSet : (block.hopRowSet env picks hop []).result =
      (block.loweredHop env picks hop).map fun placed =>
        { name := env.rowSetName hop.nodeAlias
          members := [block.hopSelect env picks hop placed] } := by
  have noVector : picks.vectorParts hop.nodeAlias = {} := by simp [vectorParts, one.vector]
  unfold hopRowSet hopConditions
  simp only [result_bind, result_pure, noVector, append_nil, one.hopSource_eq,
    isJoinedLater, any_nil, Bool.false_and, Bool.false_eq_true, if_false, hopSelect, append_assoc,
    LawfulMonad.bind_assoc]
  exact bind_pure_comp _ _

theorem result_chainLevel (uncounted : picks.counts = none) : (block.chainLevel env picks).result = do
      let early ← block.loweredStart env picks
      let placed ← block.loweredHop env picks hop
      let select ← (block.chainSelect env picks).result
      return block.hopLevel env picks hop early placed select := by
  unfold chainLevel
  simp only [result_bind, result_pure, result_startRowSet one.vector, one.traversals,
    hopRowSets, uncounted, one.result_hopRowSet, bind_of_map, LawfulMonad.bind_assoc]
  rfl

theorem rowSetNames_ne : env.rowSetName block.start.aliasName ≠ env.rowSetName hop.nodeAlias :=
  fun same => one.bound.start_ne_node one.mem (rowSetName_injective _ same)

/-- The row sets of a chain of one hop get the start nodes and their connections. -/
theorem prepares_hopLevel (typed : world.Typed) (reads : Condition.ReadElements placed)
    (select : Select Statement) {after : Context ν Statement} :
    Level.Prepares false world (block.hopLevel env picks hop early placed select).rowSets after ↔
      after = block.hopContext env picks hop early placed world := by
  have declared (rows : Bag ν) : (world.declare (env.rowSetName block.start.aliasName) rows).relations
        (env.rowSetName hop.joinFrom) = rows := by
    rw [one.joinFrom, relations_declare]
  have hops (others : Bag ν) : (block.hopSelect env picks hop placed).Returns
          (world.declare (env.rowSetName block.start.aliasName) (block.startRows env picks early world)) others ↔
        others = (block.starts env picks early world).bind fun node =>
          block.keyRows env picks hop placed world (world.db.keyOf node) := by
    have rows := declared (block.startRows env picks early world)
    rw [one.returns_hopSelect (typed.declare _ _) reads (rows.trans (by simp only [startRows, starts_declare]; rfl))]
    simp [keyRows]
  unfold hopLevel
  rw [Level.prepares_iff_of_two rfl rfl]
  simp [returns_startSelect, hops, hopContext]

theorem frames_chainSelect (typed : world.Typed) (unique : world.UniqueNodes) {select : Select Statement}
    (source : select.source = .relation (env.rowSetName block.start.aliasName) none)
    (joins : select.joins = block.traversals.map (rowSetJoin env picks))
    (uncounted : picks.counts = none) :
    select.frames (block.hopContext env picks hop early placed world) =
      (block.rejoined env picks hop early placed world).filter (world.Holds · select.conditions) := by
  have joined : select.joins =
      [{ kind := if hop.optional then .left else .inner
         source := .relation (env.rowSetName hop.nodeAlias) none
         conditions :=
           (NodeKey.carried (.relation (env.rowSetName hop.nodeAlias)) block.start.aliasName).same
             (.carried (.relation (env.rowSetName block.start.aliasName))
               block.start.aliasName) }] := by
    rw [joins, one.traversals]
    simp [rowSetJoin, Setting.hopName, uncounted, one.joinFrom]
  have key (node : Record ν) := one.carriedKey_startRow world.db node
  have keyed : ∀ node ∈ block.starts env picks early world,
      ∀ row ∈ block.keyRows env picks hop placed world (world.db.keyOf node),
        world.db.carriedKey block.start.aliasName row = world.db.keyOf node := by
    intro node _ row mem
    obtain ⟨pair, -, rfl⟩ := Multiset.mem_map.mp mem
    rw [← one.joinFrom]
    exact carriedKey_hopRow ..
  rw [hopContext, Select.frames_rejoin one.rowSetNames_ne source joined fun _ mem => one.isTextKey_startRow typed mem]
  simp only [bind_map, key]
  refine congrArg _ (Multiset.bind_congr fun node mem => ?_)
  rw [filter_bind_eq_of_key (nodup_starts unique) keyed mem]

theorem placed_ofElement {holds : Statement → Prop} (nested : block.NestedEnsures holds) {dialect : Dialect}
    (lowered : (block.lowerPlaced dialect picks hop.scope (some hop.nodeAlias)).result = .ok placed) :
    Condition.ReadElements placed := by
  have admitted := (lowerPlaced_ensures dialect one.fit.placements
    (hopScope_serves one.bound one.mem (fun column _ => ofColumn_readsElement .edge column)
      fun column _ => ofColumn_readsElement .node column) nested).of_ok lowered
  exact fun condition mem => (admitted condition mem).references

theorem aliases_eq : block.aliases = [block.start.aliasName, hop.edgeAlias, hop.nodeAlias] := by
  simp [aliases, one.traversals]

omit one in
theorem ownerOf_start : block.ownerOf block.start.aliasName = some block.start.aliasName := by
  simp [ownerOf, binding?]

theorem ownerOf_node : block.ownerOf hop.nodeAlias = some hop.nodeAlias := by
  simp [ownerOf, binding?, bindingIn, one.traversals, one.bound.start_ne_node one.mem]

theorem ownerOf_edge : block.ownerOf hop.edgeAlias = some hop.nodeAlias := by
  simp [ownerOf, binding?, bindingIn, one.traversals, one.bound.start_ne_edge one.mem,
    (one.bound.edge_ne_node one.mem one.mem).symm]

theorem elementOf_edge : block.elementOf hop.edgeAlias = .edge := one.bound.elementOf_edge one.mem

theorem elementOf_node : block.elementOf hop.nodeAlias = .node := one.bound.elementOf_node one.mem

omit [DecidableEq ν] in
theorem field_hopRow (names : block.Apart .ignored) (db : Engine ν) (key : ν × ν) (pair : Record ν × Record ν)
    {column : Column} (carried : column ∈ picks.carried hop.nodeAlias)
    (present : column.existsOn .node = true) :
    db.field (hopRow picks hop db key pair) (carriedName hop.nodeAlias column) = db.field pair.2 column.name := by
  have inStart : block.start.aliasName ∈ block.aliases := List.mem_cons_self
  have inNode := node_mem_aliases one.mem
  have atNode : column.existsOn (block.elementOf hop.nodeAlias) = true := by
    rw [one.elementOf_node]
    exact present
  have notHanded (other : Column) (onNode : other.existsOn .node = true) :
      lowerAscii (carriedName hop.nodeAlias column) ≠ lowerAscii (carriedName hop.joinFrom other) := by
    rw [one.joinFrom]
    refine names.carriedName_ne inNode inStart (one.bound.start_ne_node one.mem).symm atNode ?_
    rw [elementOf_start]
    exact onNode
  have notEdge : ∀ other ∈ picks.carried hop.edgeAlias,
      lowerAscii (carriedName hop.nodeAlias column) ≠ lowerAscii (carriedName hop.edgeAlias other) := by
    intro other _
    have apart := (one.bound.edge_ne_node one.mem one.mem).symm
    by_cases absent : other = .version
    · have different := one.bound.lowerAscii_ne inNode (edge_mem_aliases one.mem) apart
      exact lowerAscii_carriedName_node_ne different present (absent ▸ rfl)
    · refine names.carriedName_ne inNode (edge_mem_aliases one.mem) apart atNode ?_
      rw [one.elementOf_edge]
      simpa [Column.existsOn] using absent
  have handed (rest : Record ν) : db.field
      ([(carriedName hop.joinFrom .id, key.1), (carriedName hop.joinFrom .kind, key.2)] ++ rest)
      (carriedName hop.nodeAlias column) = db.field rest (carriedName hop.nodeAlias column) := by
    exact (field_cons_of_ne _ _ _ (notHanded .id rfl)).trans (field_cons_of_ne _ _ _ (notHanded .kind rfl))
  rw [hopRow, append_assoc, handed, field_carry_of_ne notEdge, field_carry_self carried]

/-- Without counts, the final SELECT can read every alias. -/
theorem relations_uncounted (uncounted : picks.counts = none) : block.relations env picks = { carried :=
          [⟨block.start.aliasName, env.rowSetName block.start.aliasName, .node, picks.carried block.start.aliasName⟩,
            ⟨hop.edgeAlias, env.rowSetName hop.nodeAlias, .edge, picks.carried hop.edgeAlias⟩,
            ⟨hop.nodeAlias, env.rowSetName hop.nodeAlias, .node, picks.carried hop.nodeAlias⟩] } := by
  simp [relations, isCounted, uncounted, one.aliases_eq, readFrom, one.collapse,
    ownerOf_start, one.ownerOf_node, one.ownerOf_edge, elementOf_start, one.elementOf_edge,
    one.elementOf_node]

/-- Counts take the place of the edge and the node. -/
theorem relations_counted {counts : Counts} (found : picks.counts = some counts)
    (nodeAlias : counts.nodeAlias = hop.nodeAlias) :
    block.relations env picks =
      { carried :=
          [⟨block.start.aliasName, env.rowSetName block.start.aliasName, .node, picks.carried block.start.aliasName⟩]
        unavailable :=
          [(hop.edgeAlias, .countedAlias hop.edgeAlias), (hop.nodeAlias, .countedAlias hop.nodeAlias)] } := by
  have apart := (one.bound.start_ne_node one.mem).symm
  simp [relations, isCounted, found, nodeAlias, one.aliases_eq, readFrom, one.collapse,
    ownerOf_start, one.ownerOf_node, one.ownerOf_edge, elementOf_start, apart]

theorem lookup_start_uncounted (uncounted : picks.counts = none) :
    (block.relations env picks).lookup block.start.aliasName =
      .ok ⟨block.start.aliasName, env.rowSetName block.start.aliasName, .node,
        picks.carried block.start.aliasName⟩ := by
  simp [one.relations_uncounted uncounted, Relations.lookup, Relations.find?]

theorem lookup_start_counted {counts : Counts} (found : picks.counts = some counts)
    (nodeAlias : counts.nodeAlias = hop.nodeAlias) :
    (block.relations env picks).lookup block.start.aliasName =
      .ok ⟨block.start.aliasName, env.rowSetName block.start.aliasName, .node,
        picks.carried block.start.aliasName⟩ := by
  have notNode := (one.bound.start_ne_node one.mem).symm
  have notEdge := (one.bound.start_ne_edge one.mem).symm
  simp [one.relations_counted found nodeAlias, Relations.lookup, Relations.find?, notNode, notEdge]

theorem lookup_node (uncounted : picks.counts = none) : (block.relations env picks).lookup hop.nodeAlias =
      .ok ⟨hop.nodeAlias, env.rowSetName hop.nodeAlias, .node, picks.carried hop.nodeAlias⟩ := by
  have notStart := one.bound.start_ne_node one.mem
  have notEdge := one.bound.edge_ne_node one.mem one.mem
  simp [one.relations_uncounted uncounted, Relations.lookup, Relations.find?, notStart, notEdge]

end OneHop

end Block

end Meaning

end GraphSql
