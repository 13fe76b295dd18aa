import GraphSql.Proofs.Equivalence.OneHop
import GraphSql.Proofs.Equivalence.WalkSteps

namespace GraphSql

open Context Engine Function List Multiset OutputColumn Text Traced Walk

variable {column : Column} {ν : Type} {block : Block Nested} {env : Setting} {picks : Decisions}
variable {walk : Walk}

/-- A carried name has a bar in it. -/
theorem carriedName_ne {name : String} (noBar : '_' ∉ (lowerAscii name).toList) (aliasName : String)
    (column : Column) : lowerAscii name ≠ lowerAscii (carriedName aliasName column) := by
  intro same
  refine noBar ?_
  rw [same, lowerAscii_carriedName]
  simp [carriedName]

namespace Walk

/-- Where a walk starts, where it has come to, its depth, and the path that it has visited. -/
structure Position (ν : Type) where
  start : Record ν
  current : Record ν
  depth : Nat
  path : ν

namespace Position

/-- The walk of no steps from a node. -/
def ofStart (db : Engine ν) (node : Record ν) : Position ν := ⟨node, node, 0, db.pathStart (db.keyOf node).1⟩

/-- The walk after a further step to a node. -/
def extend (db : Engine ν) (position : Position ν) (node : Record ν) : Position ν :=
  ⟨position.start, node, position.depth + 1, db.pathExtend position.path (db.keyOf node).1⟩

end Position

/-- The row of a walk. -/
def row (walk : Walk) (block : Block Nested) (picks : Decisions) (db : Engine ν) (position : Position ν) : Record ν :=
  db.carry (picks.carried block.start.aliasName) block.start.aliasName position.start ++
    (db.carry (picks.carried walk.hop.nodeAlias) walk.hop.nodeAlias position.current ++
      (depthName, db.integer position.depth) ::
        if walk.walk.tracksPath then [(pathName, position.path)] else [])

/-- The walk may be extended to the node. -/
def Admits (walk : Walk) (db : Engine ν) (position : Position ν) (node : Record ν) : Prop :=
  position.depth < walk.range.greatest.toNat ∧
    (walk.walk.tracksPath = true → db.offPath position.path (db.keyOf node).1 = .yes)

instance (walk : Walk) (db : Engine ν) (position : Position ν) (node : Record ν) :
    Decidable (walk.Admits db position node) :=
  inferInstanceAs (Decidable (_ ∧ _))

end Walk

/-- A query with a walk and no other hop, whose row set carries every column. -/
structure Block.OneWalk (block : Block Nested) (picks : Decisions) (walk : Walk) : Prop where
  bound : block.Bound
  fit : picks.Fit block
  traversals : block.traversals = [walk.hop]
  carried : picks.carried = block.everyColumn

variable {aliasName : String} {position : Position ν}

namespace Block.OneWalk

variable (one : block.OneWalk picks walk)

include one

theorem mem : walk.hop ∈ block.traversals := by
  rw [one.traversals]
  exact List.mem_singleton_self walk.hop

theorem elementOf_node : block.elementOf walk.hop.nodeAlias = .node := one.bound.elementOf_node one.mem

theorem mem_carried (present : column.existsOn (block.elementOf aliasName) = true) :
    column ∈ picks.carried aliasName := by
  rw [one.carried]
  exact mem_everyColumn present

theorem existsOn_of_mem_carried (carried : column ∈ picks.carried aliasName) :
    column.existsOn (block.elementOf aliasName) = true := by
  rw [one.carried] at carried
  exact Column.mem_ofElement.mp carried

variable (db : Engine ν) (position : Walk.Position ν)

theorem field_start (present : column.existsOn .node = true) :
    db.field (walk.row block picks db position) (carriedName block.start.aliasName column) =
      db.field position.start column.name := by
  refine field_carry (one.mem_carried ?_) _
  rw [elementOf_start]
  exact present

theorem field_current (present : column.existsOn .node = true) :
    db.field (walk.row block picks db position) (carriedName walk.hop.nodeAlias column) =
      db.field position.current column.name := by
  have atNode : column.existsOn (block.elementOf walk.hop.nodeAlias) = true := by
    rw [one.elementOf_node]
    exact present
  have apart : ∀ other ∈ picks.carried block.start.aliasName, lowerAscii (carriedName walk.hop.nodeAlias column) ≠
        lowerAscii (carriedName block.start.aliasName other) := by
    intro other carried
    have otherPresent := one.existsOn_of_mem_carried carried
    rw [elementOf_start] at otherPresent
    have different := one.bound.lowerAscii_ne (node_mem_aliases one.mem) List.mem_cons_self
      (one.bound.start_ne_node one.mem).symm
    exact lowerAscii_carriedName_node_ne different present otherPresent
  rw [row, field_carry_of_ne apart]
  exact field_carry (one.mem_carried atNode) _

omit one in
/-- What follows the columns of the nodes is found under its own name. -/
theorem field_trail {name : String} (noBar : '_' ∉ (lowerAscii name).toList) :
    db.field (walk.row block picks db position) name = db.field ((depthName, db.integer position.depth) ::
        if walk.walk.tracksPath then [(pathName, position.path)] else []) name := by
  have apart (aliasName : String) : ∀ column ∈ picks.carried aliasName,
      lowerAscii name ≠ lowerAscii (carriedName aliasName column) :=
    fun column _ => carriedName_ne noBar aliasName column
  rw [row, field_carry_of_ne (apart _), field_carry_of_ne (apart _)]

omit one in
theorem field_depth : db.field (walk.row block picks db position) depthName = db.integer position.depth := by
  rw [field_trail db position (by decide), field_cons_self]

omit one in
theorem field_path (tracks : walk.walk.tracksPath = true) :
    db.field (walk.row block picks db position) pathName = position.path := by
  rw [field_trail db position (by decide), if_pos tracks, field_cons_of_ne _ _ _ (by decide), field_cons_self]

variable (edge node : Record ν)

omit one in
theorem read_depth : db.read (Walk.stepFrame (walk.row block picks db position) edge node)
      (.column .walk depthName) = db.integer position.depth := field_depth db position

omit one in
theorem read_path (tracks : walk.walk.tracksPath = true) :
    db.read (Walk.stepFrame (walk.row block picks db position) edge node)
      (.column .walk pathName) = position.path := field_path db position tracks

theorem carriedKey_row : db.carriedKey walk.hop.nodeAlias (walk.row block picks db position) =
      db.keyOf position.current := by
  have id : db.field (walk.row block picks db position)
      (carriedName walk.hop.nodeAlias .id) = db.field position.current Column.id.name :=
    one.field_current db position rfl
  have kind : db.field (walk.row block picks db position)
      (carriedName walk.hop.nodeAlias .kind) = db.field position.current Column.kind.name :=
    one.field_current db position rfl
  simp [carriedKey, id, kind, keyOf]

end Block.OneWalk

namespace Walk

/-- The first member of a row set of walks, with the predicates that are placed there. -/
def startSelect (walk : Walk) (block : Block Nested) (env : Setting) (picks : Decisions)
    (placed : Conditions) : Select Statement where
  columns :=
    block.tableColumns picks block.start.aliasName ++ block.tableColumns picks walk.hop.nodeAlias ++
      walk.trailColumns (.integer 0) (.pathStart NodeKey.node.id)
  source := .table .nodes
  conditions := block.startConditions env.graphId ++ block.temporal.conditions picks.now .node ++ placed

theorem result_startMember (walk : Walk) (block : Block Nested) (env : Setting) (picks : Decisions) :
    (walk.startMember block env picks).result =
      (block.loweredStart env picks).map (walk.startSelect block env picks) := by
  unfold startMember
  simp only [result_bind, result_pure]
  exact bind_pure_comp _ _

/-- The level of a walk. -/
def level (walk : Walk) (block : Block Nested) (env : Setting) (picks : Decisions)
    (early placed : Conditions) (select : Select Statement) :
    Level Statement where
  isRecursive := true
  rowSets :=
    [{ name := rowSetName env
       members :=
         walk.startSelect block env picks early :: walk.stepSelects block env picks placed
             env.opts.dialect.capabilities.walk }]
  select := select

theorem result_walkLevel {walk : Walk} {block : Block Nested} (found : block.walk = .ok walk)
    (kinds : walk.hop.edgeKinds ≠ [] ∨ walk.hop.inverseEdgeKinds ≠ []) (env : Setting)
    (picks : Decisions) :
    (block.walkLevel env picks).result = do
      let early ← block.loweredStart env picks
      let placed ← walk.placed block env picks
      let select ← (walk.select block env picks).result
      return walk.level block env picks early placed select := by
  have opened : (block.walkLevel env picks).result = do
      let first ← (walk.startMember block env picks).result
      let further ← (walk.stepMembers block env picks (steps env.opts.dialect.capabilities.walk walk.hop)).result
      let select ← (walk.select block env picks).result
      return {
        isRecursive := true
        rowSets := [{ name := rowSetName env, members := first :: further }]
        select } := by
    unfold Block.walkLevel
    simp only [result_bind, result_pure, found]
    rfl
  simp only [opened, result_startMember, result_stepMembers_of_kinds kinds, bind_of_map]
  rfl

section Meaning

variable [DecidableEq ν]

section

variable (walk : Walk) (block : Block Nested) (env : Setting) (picks : Decisions)

/-- The edges and nodes by which a walk is extended. -/
def extensions (placed : Conditions) (world : Context ν Statement)
    (position : Position ν) : Multiset (Record ν × Record ν) :=
  (block.connections env picks walk.hop placed world
    (world.db.keyOf position.current)).filter fun pair => walk.Admits world.db position pair.2

/-- The walks that are one step longer. -/
def advance (placed : Conditions) (world : Context ν Statement)
    (positions : Multiset (Position ν)) : Multiset (Position ν) :=
  positions.bind fun position =>
    (walk.extensions block env picks placed world position).map fun pair => position.extend world.db pair.2

/-- The walks of some rounds. -/
def walksWithin (placed : Conditions) (world : Context ν Statement) :
    Nat → Multiset (Position ν) → Multiset (Position ν)
  | 0, _ => 0
  | rounds + 1, positions =>
      positions + walksWithin placed world rounds (walk.advance block env picks placed world positions)

/-- The walks of a query. -/
def walks (early placed : Conditions) (world : Context ν Statement) : Multiset (Position ν) :=
  walk.walksWithin block env picks placed world (walk.range.greatest.toNat + 1)
    ((block.starts env picks early world).map (Position.ofStart world.db))

/-- The rows of the row set of walks. -/
def walkContext (early placed : Conditions) (world : Context ν Statement) : Context ν Statement :=
  world.declare (rowSetName env) ((walk.walks block env picks early placed world).map (walk.row block picks world.db))

/-- The row in reach of the final SELECT, for a walk. -/
def frame (db : Engine ν) (position : Position ν) : Frame ν :=
  [(.relation (rowSetName env), walk.row block picks db position)]

end

variable {world : Context ν Statement} {placed : Conditions}
variable {positions : Multiset (Position ν)}

/-- A walk that is one step longer comes from a walk to which the step was open. -/
theorem of_mem_advance (member : position ∈ walk.advance block env picks placed world positions) :
    ∃ before ∈ positions, ∃ node ∈ world.tables .nodes,
      walk.Admits world.db before node ∧ position = before.extend world.db node := by
  obtain ⟨before, mem, extended⟩ := mem_bind.mp member
  obtain ⟨pair, inExtensions, rfl⟩ := Multiset.mem_map.mp extended
  obtain ⟨connected, admits⟩ := Multiset.mem_filter.mp inExtensions
  have inNodes := (mem_pairs (Multiset.mem_filter.mp connected).1).2
  exact ⟨before, mem, pair.2, inNodes, admits, rfl⟩

/-- Every walk that is one step longer ends at a node with a key. -/
theorem isTextKey_of_mem_advance (typed : world.Typed)
    (mem : position ∈ walk.advance block env picks placed world positions) :
    world.db.IsTextKey (world.db.keyOf position.current) := by
  obtain ⟨before, -, node, inNodes, -, rfl⟩ := of_mem_advance mem
  have texts := typed .nodes node inNodes
  exact ⟨texts _ (by decide), texts _ (by decide)⟩

@[simp] theorem advance_zero : walk.advance block env picks placed world (0 : Multiset (Position ν)) = 0 :=
  zero_bind _

/-- No walk gets deeper than the query allows, so that the rounds come to an end. -/
theorem iterate_advance_eq_zero (rounds : Nat)
    (deep : ∀ position ∈ positions, walk.range.greatest.toNat ≤ position.depth + rounds) :
    (walk.advance block env picks placed world)^[rounds + 1] positions = 0 := by
  induction rounds generalizing positions with
  | zero =>
    refine eq_zero_of_forall_notMem fun position member => ?_
    obtain ⟨before, mem, node, -, ⟨shallow, -⟩, -⟩ := of_mem_advance member
    have deepest := deep before mem
    omega
  | succ rounds ih =>
    rw [iterate_succ_apply]
    refine ih fun position member => ?_
    obtain ⟨before, mem, node, -, -, rfl⟩ := of_mem_advance member
    have deeper := deep before mem
    simp only [Position.extend]
    omega

@[simp] theorem walksWithin_zero (rounds : Nat) :
    walk.walksWithin block env picks placed world rounds (0 : Multiset (Position ν)) = 0 := by
  induction rounds with
  | zero => rfl
  | succ rounds ih => simp [walksWithin, ih]

theorem record_trailColumns (walk : Walk) (db : Engine ν) (frame : Frame ν) (depth path : Term) :
    (walk.trailColumns depth path).flatMap (record db 0 frame) = (depthName, depth.eval db 0 frame) ::
        if walk.walk.tracksPath then [(pathName, path.eval db 0 frame)] else [] := by
  unfold trailColumns
  split <;> rfl

theorem isAggregate_trailColumns (walk : Walk) {depth path : Term}
    (depthPlain : depth.isAggregate = false) (pathPlain : path.isAggregate = false) :
    ∀ column ∈ walk.trailColumns depth path, column.isAggregate = false := by
  intro column mem
  unfold trailColumns at mem
  rcases List.mem_cons.mp mem with rfl | ofPath
  · exact depthPlain
  · split at ofPath
    · obtain rfl := List.mem_singleton.mp ofPath
      exact pathPlain
    · simp at ofPath

end Meaning

end Walk

namespace Block.OneWalk

variable [DecidableEq ν] {world : Context ν Statement} {placed : Conditions}
variable {positions : Multiset (Walk.Position ν)} (one : block.OneWalk picks walk)

include one

/-- Each start node is a walk of no steps. -/
theorem returns_startSelect {rows : Bag ν} : (walk.startSelect block env picks placed).Returns world rows ↔
      rows = ((block.starts env picks placed world).map
        (Walk.Position.ofStart world.db)).map (walk.row block picks world.db) := by
  have plain : (walk.startSelect block env picks placed).IsPlain := by
    refine ⟨rfl, rfl, ?_, rfl⟩
    intro column mem
    rcases mem_append.mp mem with ofNodes | ofTrail
    · exact (mem_append.mp ofNodes).elim (block.isPlain_of_tableColumns picks _ column)
        (block.isPlain_of_tableColumns picks _ column)
    · exact walk.isAggregate_trailColumns rfl rfl column ofTrail
  have frames : (walk.startSelect block env picks placed).frames world =
      (block.starts env picks placed world).map fun node => [(.node, node)] :=
    block.frames_startSelect
  rw [plain.returns_iff, frames, Multiset.map_map, Multiset.map_map]
  have output (node : Record ν) : (walk.startSelect block env picks placed).output world 0 [(.node, node)] =
        walk.row block picks world.db (.ofStart world.db node) := by
    have ofStart : lookup (Row.ofElement (block.elementOf block.start.aliasName)) [(.node, node)] = some node := by
      rw [elementOf_start]
      rfl
    have ofNode : lookup (Row.ofElement (block.elementOf walk.hop.nodeAlias)) [(.node, node)] = some node := by
      rw [one.elementOf_node]
      rfl
    simp only [Select.output, Walk.startSelect, flatMap_append, append_assoc,
      record_tableColumns block picks ofStart, record_tableColumns block picks ofNode,
      record_trailColumns, row, Walk.Position.ofStart]
    rfl
  simp [output]

/-- A step is permitted from the row of a walk if the walk may be extended. -/
theorem permits_row (reads : Condition.ReadElements placed) (position : Walk.Position ν) (edge node : Record ν) :
    walk.Permits block picks placed world (walk.row block picks world.db position) edge node ↔
      world.Holds [(.edge, edge), (.node, node)] (block.hopVisibility picks ++ placed) ∧
        walk.Admits world.db position node := by
  have ofElement : world.Holds (Walk.stepFrame (walk.row block picks world.db position) edge node)
        (block.hopVisibility picks ++ placed) ↔
      world.Holds [(.edge, edge), (.node, node)] (block.hopVisibility picks ++ placed) :=
    holds_hopConditions one.fit reads rfl rfl
  have shallow : (Condition.compare (σ := Statement) (.column .walk depthName) .less
      (.integer walk.range.greatest.toNat)).truth world 0
        (Walk.stepFrame (walk.row block picks world.db position) edge node) = .yes ↔
      position.depth < walk.range.greatest.toNat := by
    simp [Condition.truth, Term.eval, read_depth, world.db.compare_integer, Comparator.holds]
  rw [Walk.Permits, holds_append, ofElement, Walk.Admits, stepConditions, holds_cons, shallow]
  refine and_congr_right fun _ => and_congr_right fun _ => ?_
  split
  · next tracks =>
    have free : (Condition.offPath (σ := Statement) (.column .walk pathName) NodeKey.node.id).truth world 0
          (Walk.stepFrame (walk.row block picks world.db position) edge node) =
        world.db.offPath position.path (world.db.keyOf node).1 := by
      rw [← read_path world.db position edge node tracks]
      rfl
    simp [free, tracks]
  · next free => simp [free]

theorem output_stepSelect (position : Walk.Position ν) (edge node : Record ν) :
    (walk.stepSelect block env picks placed walk.hop []).output world 0
        (Walk.stepFrame (walk.row block picks world.db position) edge node) =
      walk.row block picks world.db (position.extend world.db node) := by
  have ofStart : ((picks.carried block.start.aliasName).map fun column =>
      named (.column .walk (carriedName block.start.aliasName column))
        (carriedName block.start.aliasName column)).flatMap (record world.db 0
            (Walk.stepFrame (walk.row block picks world.db position) edge node)) =
      world.db.carry (picks.carried block.start.aliasName) block.start.aliasName position.start := by
    rw [flatMap_map, carry, map_eq_flatMap]
    refine flatMap_congr fun column carried => ?_
    have present := one.existsOn_of_mem_carried carried
    rw [elementOf_start] at present
    exact congrArg (fun value => [(carriedName block.start.aliasName column, value)])
      (one.field_start world.db position present)
  have ofNode : lookup (Row.ofElement (block.elementOf walk.hop.nodeAlias))
      (Walk.stepFrame (walk.row block picks world.db position) edge node) = some node := by
    rw [one.elementOf_node]
    rfl
  have depth : (Term.successor (.column .walk depthName)).eval world.db 0
      (Walk.stepFrame (walk.row block picks world.db position) edge node) =
        world.db.integer (position.depth + 1 : Nat) := by
    rw [Term.eval, Term.eval, read_depth, world.db.successor_integer]
    rfl
  have path (tracks : walk.walk.tracksPath = true) :
      (Term.pathExtend (.column .walk pathName) NodeKey.node.id).eval world.db 0
        (Walk.stepFrame (walk.row block picks world.db position) edge node) =
          world.db.pathExtend position.path (world.db.keyOf node).1 := by
    rw [← read_path world.db position edge node tracks]
    rfl
  have extended : walk.row block picks world.db (position.extend world.db node) =
      world.db.carry (picks.carried block.start.aliasName) block.start.aliasName position.start ++
        (world.db.carry (picks.carried walk.hop.nodeAlias) walk.hop.nodeAlias node ++
          (depthName, world.db.integer (position.depth + 1 : Nat)) ::
            if walk.walk.tracksPath then
              [(pathName, world.db.pathExtend position.path (world.db.keyOf node).1)]
            else []) := rfl
  simp only [Select.output, stepSelect, flatMap_append, append_assoc, ofStart,
    record_tableColumns block picks ofNode, record_trailColumns, extended, depth]
  congr 3
  split
  · next tracks => rw [path tracks]
  · rfl

section

variable (typed : world.Typed) (reads : Condition.ReadElements placed)

include typed reads

/-- A round extends each walk by the steps that it may take. -/
theorem returnTogether_advance (texts : ∀ position ∈ positions, world.db.IsTextKey (world.db.keyOf position.current))
    (strategy : WalkStrategy) {next : Bag ν} :
    Select.ReturnTogether (world.declare (Walk.rowSetName env) (positions.map (walk.row block picks world.db)))
        (walk.stepSelects block env picks placed strategy) next ↔
      next = (walk.advance block env picks placed world positions).map (walk.row block picks world.db) := by
  have arrived : ∀ current ∈ (world.declare (Walk.rowSetName env)
      (positions.map (walk.row block picks world.db))).relations (Walk.rowSetName env),
      world.db.IsTextKey (world.db.carriedKey walk.hop.nodeAlias current) := by
    intro current member
    rw [relations_declare] at member
    obtain ⟨position, mem, rfl⟩ := Multiset.mem_map.mp member
    rw [one.carriedKey_row]
    exact texts position mem
  rw [returnTogether_stepSelects (typed.declare _ _) arrived, (isPlain_stepSelect ..).returns_iff,
    frames_stepSelect walk.hop ⟨rfl, rfl⟩ (typed.declare _ _) arrived, relations_declare,
    bind_map, Multiset.map_bind, advance, Multiset.map_bind]
  refine Eq.congr_right (Multiset.bind_congr fun position _ => ?_)
  have output (pair : Record ν × Record ν) : (walk.stepSelect block env picks placed walk.hop []).output
          (world.declare (Walk.rowSetName env) (positions.map (walk.row block picks world.db))) 0
          (Walk.stepFrame (walk.row block picks world.db position) pair.1 pair.2) =
        walk.row block picks world.db (position.extend world.db pair.2) :=
    one.output_stepSelect position pair.1 pair.2
  simp only [Multiset.map_map, comp_def, output]
  rw [extensions, connections, Multiset.filter_filter]
  refine congrArg _ (Multiset.filter_congr fun pair _ => ?_)
  have permits : walk.Permits block picks placed world _ _ _ ↔ _ := one.permits_row reads position pair.1 pair.2
  have key := one.carriedKey_row world.db position
  simp only [Walk.Permits, engine_declare, holds_declare, holds_nil, and_true, key] at permits ⊢
  rw [permits]
  exact and_rotate.symm

/-- The row set grows by the walks of each round until there are none. -/
theorem grows_iff (strategy : WalkStrategy) (rounds : Nat)
    (texts : ∀ position ∈ positions, world.db.IsTextKey (world.db.keyOf position.current))
    (ends : (walk.advance block env picks placed world)^[rounds] positions = 0)
    {rows : Bag ν} :
    RowSet.Grows world (Walk.rowSetName env) (walk.stepSelects block env picks placed strategy)
        (positions.map (walk.row block picks world.db)) rows ↔
      rows = (walk.walksWithin block env picks placed world rounds positions).map
        (walk.row block picks world.db) := by
  induction rounds generalizing positions rows with
  | zero =>
    have empty : positions = 0 := ends
    subst empty
    have still : ∀ rows, Select.ReturnTogether (world.declare (Walk.rowSetName env)
          ((0 : Multiset (Walk.Position ν)).map (walk.row block picks world.db)))
        (walk.stepSelects block env picks placed strategy) rows → rows = 0 := by
      intro rows together
      rw [(one.returnTogether_advance typed reads texts strategy).mp together]
      simp
    constructor
    · exact fun grows => grows.eq_zero still (Multiset.map_zero _)
    · rintro rfl
      exact .stop
  | succ rounds ih =>
    have arrived : ∀ position ∈ walk.advance block env picks placed world positions,
        world.db.IsTextKey (world.db.keyOf position.current) :=
      fun _ mem => isTextKey_of_mem_advance typed mem
    rw [walksWithin, Multiset.map_add]
    constructor
    · intro grows
      generalize started : positions.map (walk.row block picks world.db) = added at grows
      cases grows with
      | stop =>
        rw [Multiset.map_eq_zero] at started
        simp [started]
      | round together grows =>
        subst started
        rw [(one.returnTogether_advance typed reads texts strategy).mp together] at grows
        rw [(ih arrived ends).mp grows]
    · rintro rfl
      exact .round ((one.returnTogether_advance typed reads texts strategy).mpr rfl) ((ih arrived ends).mpr rfl)

/-- The row set of a walk gets the walks that are no deeper than the query allows. -/
theorem prepares_level (early : Conditions) (select : Select Statement) {after : Context ν Statement} :
    Level.Prepares true world (walk.level block env picks early placed select).rowSets after ↔
      after = walk.walkContext block env picks early placed world := by
  have texts : ∀ position ∈ (block.starts env picks early world).map (Walk.Position.ofStart world.db),
      world.db.IsTextKey (world.db.keyOf position.current) := by
    intro position mem
    obtain ⟨node, inStarts, rfl⟩ := Multiset.mem_map.mp mem
    exact isTextKey_of_mem_starts typed inStarts
  have ends : (walk.advance block env picks placed world)^[walk.range.greatest.toNat + 1]
      ((block.starts env picks early world).map (Walk.Position.ofStart world.db)) = 0 := by
    refine iterate_advance_eq_zero _ fun position mem => ?_
    obtain ⟨node, -, rfl⟩ := Multiset.mem_map.mp mem
    exact Nat.le_add_left _ _
  have rows (rows : Bag ν) : RowSet.Returns world true
      { name := Walk.rowSetName env
        members :=
          walk.startSelect block env picks early :: walk.stepSelects block env picks placed
              env.opts.dialect.capabilities.walk } rows ↔
      rows = (walk.walks block env picks early placed world).map (walk.row block picks world.db) := by
    constructor
    · rintro ⟨first, further, start, members, returns, grows⟩
      obtain ⟨rfl, rfl⟩ := List.cons.inj members
      rw [one.returns_startSelect] at returns
      subst returns
      exact (one.grows_iff typed reads _ _ texts ends).mp grows
    · intro same
      exact ⟨_, _, _, rfl, one.returns_startSelect.mpr rfl, (one.grows_iff typed reads _ _ texts ends).mpr same⟩
  simp [level, Level.Prepares, rows, exists_eq_left, walkContext]

end

omit one in
theorem holds_depthConditions (position : Walk.Position ν) :
    world.Holds (walk.frame block env picks world.db position)
        walk.depthConditions ↔ walk.range.least.toNat ≤ position.depth := by
  have depth : world.db.read (walk.frame block env picks world.db position)
      (.bare depthName) = world.db.integer position.depth := by
    simp only [frame, Engine.read, flatMap_cons, flatMap_nil, append_nil]
    exact field_depth world.db position
  unfold depthConditions
  split
  · next least => simp [least]
  · simp [Condition.truth, Term.eval, depth, world.db.compare_integer, Comparator.holds]

omit one in
theorem frames_select {select : Select Statement} {conditions : Conditions}
    (source : select.source = .relation (Walk.rowSetName env) none) (joins : select.joins = [])
    (filters : select.conditions = walk.depthConditions ++ conditions)
    (early : Conditions) :
    select.frames (walk.walkContext block env picks early placed world) =
      (((walk.walks block env picks early placed world).filter fun position =>
        walk.range.least.toNat ≤ position.depth).map fun position =>
          walk.frame block env picks world.db position).filter (world.Holds · conditions) := by
  unfold Select.frames
  rw [source, joins, filters]
  simp only [Join.extendAll, Source.records_relation, Source.row, walkContext,
    relations_declare, Multiset.map_map, comp_def, Multiset.filter_map,
    Multiset.filter_filter]
  refine congrArg _ (Multiset.filter_congr fun position _ => ?_)
  rw [holds_declare, holds_append, and_comm]
  exact and_congr_right fun _ => holds_depthConditions position

end Block.OneWalk

namespace Block

variable {plan : Plan}

theorem analyzeWalk_of_compileWalk {level : Level Statement}
    (compiled : (block.compileWalk env).result = .ok (level, plan)) :
    ∃ picks, (block.analyzeWalk env.opts).result = .ok (picks, plan) ∧
      (block.walkLevel env picks).result = .ok level := by
  unfold compileWalk at compiled
  simp only [result_bind, result_pure] at compiled
  obtain ⟨⟨picks, planned⟩, analyzed, rest⟩ := exists_of_bind_eq_ok compiled
  obtain ⟨made, isMade, same⟩ := exists_of_bind_eq_ok rest
  cases same
  exact ⟨picks, analyzed, isMade⟩

/-- A walk that is accepted is not optional, and its query does not search by similarity. -/
theorem checkWalk_returns {σ : Type} {block : Block σ} (traversals : block.traversals = [walk.hop])
    (asked : walk.hop.walk = some walk.walk) (hasVector : Bool) :
    Returns (block.checkWalk hasVector) fun _ => walk.hop.optional = false ∧ hasVector = false := by
  have only : block.onlyWalk = .ok (walk.hop, walk.walk) := by
    rw [onlyWalk, traversals]
    simp [asked]
  unfold checkWalk
  rw [only, returns_bind, returns_ok]
  dsimp only
  split
  · trivial
  · next required =>
    rw [returns_bind]
    refine returns_all fun _ => ?_
    cases hasVector with
    | true => trivial
    | false => exact (returns_pure _ _).mpr ⟨by simpa using required, rfl⟩

/-- Where a walk is analyzed, it is the only hop of its query, and the query does not search by
similarity. -/
theorem oneWalk_of_analyzeWalk {opts : Options} (traversals : block.traversals = [walk.hop])
    (asked : walk.hop.walk = some walk.walk)
    (analyzed : (block.analyzeWalk opts).result = .ok (picks, plan)) :
    (block.analyzeReferences opts.dialect).result = .ok none ∧
      picks = block.walkDecisions opts none ∧ walk.hop.optional = false ∧
      block.OneWalk (block.walkDecisions opts none) walk := by
  rw [result_analyzeWalk] at analyzed
  obtain ⟨vector, references, afterReferences⟩ := exists_of_bind_eq_ok analyzed
  obtain ⟨_, checked, afterCheck⟩ := exists_of_bind_eq_ok afterReferences
  obtain ⟨_, -, made⟩ := exists_of_bind_eq_ok afterCheck
  obtain ⟨optional, unsearched⟩ := (checkWalk_returns traversals asked vector.isSome).of_ok checked
  obtain rfl : vector = none := by simpa using unsearched
  have bound := ((block.analyzeReferences_ensures opts.dialect).of_ok references).1
  exact ⟨references, (congrArg Prod.fst (Except.ok.inj made)).symm, optional,
    ⟨bound, walkDecisions_fit opts (by simp), traversals, rfl⟩⟩

/-- A statement of walks is made of the predicates that are placed at the two ends of a walk, and of
a final SELECT. -/
theorem compileWalk_spec {level : Level Statement} (found : block.walk = .ok walk)
    (compiled : (block.compileWalk env).result = .ok (level, plan)) :
    block.OneWalk (block.walkDecisions env.opts none) walk ∧ ∃ early placed select,
        (block.lowerPlaced env.opts.dialect (block.walkDecisions env.opts none)
          block.startScope (some block.start.aliasName)).result = .ok early ∧
        walk.placed block env (block.walkDecisions env.opts none) = .ok placed ∧
        (walk.select block env (block.walkDecisions env.opts none)).result = .ok select ∧
        level = walk.level block env (block.walkDecisions env.opts none) early placed
          select := by
  obtain ⟨traversals, asked, -⟩ := walk_spec found
  obtain ⟨picks, analyzed, made⟩ := analyzeWalk_of_compileWalk compiled
  obtain ⟨references, rfl, -, one⟩ := oneWalk_of_analyzeWalk traversals asked analyzed
  have kinds : walk.hop.edgeKinds ≠ [] ∨ walk.hop.inverseEdgeKinds ≠ [] := by
    have kinded := (block.analyzeReferences_kinded env.opts.dialect).of_ok references
    have some := kinded.hops walk.hop one.mem
    rw [Traversal.allKinds, Ne, append_eq_nil_iff] at some
    exact not_and_or.mp some
  rw [result_walkLevel found kinds] at made
  obtain ⟨early, atStart, afterStart⟩ := exists_of_bind_eq_ok made
  obtain ⟨placed, lowered, afterPlaced⟩ := exists_of_bind_eq_ok afterStart
  obtain ⟨select, selected, same⟩ := exists_of_bind_eq_ok afterPlaced
  cases same
  exact ⟨one, early, placed, select, atStart, lowered, selected, rfl⟩

theorem OneWalk.placed_ofElement (one : block.OneWalk picks walk) {placed : Conditions} {holds : Statement → Prop}
    (nested : block.NestedEnsures holds)
    (lowered : walk.placed block env picks = .ok placed) :
    Condition.ReadElements placed := by
  have admitted := (lowerPlaced_ensures env.opts.dialect one.fit.placements
    (hopScope_serves one.bound one.mem (fun column _ => Term.ofColumn_readsElement .edge column)
      fun column _ => Term.ofColumn_readsElement .node column) nested).of_ok lowered
  exact fun condition mem => (admitted condition mem).references

end Block

end GraphSql
