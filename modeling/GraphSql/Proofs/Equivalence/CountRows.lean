import GraphSql.Proofs.Equivalence.CountSelect

namespace GraphSql

open Context List Nat NodeKey Traversal

variable {ν : Type}

namespace Block

theorem toList_countName (index : Nat) : (countName index).toList = "agg_".toList ++ toDigits 10 index := by
  simp [countName, toString, Nat.repr]

theorem countName_injective : Function.Injective countName := by
  intro first second same
  have digits : toDigits 10 first = toDigits 10 second := by
    have lists := congrArg String.toList same
    rwa [toList_countName, toList_countName, append_cancel_left_eq] at lists
  rw [← ofDigitChars_ten_toDigits (n := first), digits, ofDigitChars_ten_toDigits]

theorem toLower_of_isDigit {digit : Char} (isDigit : digit.isDigit = true) : digit.toLower = digit := by
  simp only [Char.isDigit, Bool.and_eq_true, decide_eq_true_eq] at isDigit
  unfold Char.toLower
  split
  · grind
  · rfl

theorem toLower_toDigits (number : Nat) : (toDigits 10 number).map Char.toLower = toDigits 10 number := by
  have small : ∀ digit ∈ toDigits 10 number, digit.toLower = id digit := fun digit mem =>
    toLower_of_isDigit (isDigit_of_mem_toDigits (by decide) (by decide) mem)
  rw [map_congr_left small, map_id]

theorem key_countName {letterCase : LetterCase} (index : Nat) : letterCase.key (countName index) = countName index := by
  refine LetterCase.key_eq_self ?_
  rw [toList_countName, map_append, toLower_toDigits]
  rfl

theorem lowerAscii_countName (index : Nat) : Text.lowerAscii (countName index) = countName index :=
  (key_countName index : LetterCase.key .ignored _ = _)

/-- A count is not named like a part of a key. -/
theorem countName_ne_carriedName (index : Nat) (aliasName : String) {column : Column}
    (ofKey : column = .id ∨ column = .kind) :
    Text.lowerAscii (countName index) ≠ Text.lowerAscii (carriedName aliasName column) := by
  rw [lowerAscii_countName, lowerAscii_carriedName]
  intro same
  have nonempty : toDigits 10 index ≠ [] := toDigits_ne_nil
  have isDigit := isDigit_of_mem_toDigits (by decide) (by decide) (getLast_mem nonempty)
  have ends := congrArg (fun name : String => name.toList.getLast?) same
  simp only [toList_countName, carriedName, String.toList_append, getLast?_append,
    getLast?_eq_some_getLast nonempty, Option.some_or] at ends
  have last : (toDigits 10 index).getLast nonempty = 'd' := by
    rcases ofKey with rfl | rfl <;> exact Option.some_inj.mp ends
  rw [last] at isDigit
  exact absurd isDigit (by decide)

variable {block : Block Nested} {env : Setting} {picks : Decisions} {hop : Traversal}
variable {counts : Counts} {early placed : Conditions}

/-- The SELECT of the counts, with the predicates that are placed at the hop. -/
def countSelect (block : Block Nested) (env : Setting) (picks : Decisions)
    (hop : Traversal) (counts : Counts) (placed : Conditions) :
    Select Statement where
  columns :=
    [.named hop.direction.near.id (carriedName block.start.aliasName .id),
      .named hop.direction.near.kind (carriedName block.start.aliasName .kind)] ++
      counts.columns.map fun entry => .named (.aggregate (.counting entry.2) NodeKey.node.id) (countName entry.1)
  source := .table .edges
  joins :=
    [{ source := .table .nodes
       conditions := .equal (graphColumn .node) (graphColumn .edge) :: NodeKey.node.same hop.direction.far }]
  conditions :=
    [.equal (graphColumn .edge) (.text env.graphId), .kindIs hop.direction.near.kind block.start.kinds] ++
      (hop.kindConditions ++ (block.hopVisibility picks ++ placed))
  groupBy := [hop.direction.near.id, hop.direction.near.kind]

theorem result_countRowSet : (block.countRowSet env picks hop counts).result =
      (block.loweredHop env picks hop).map fun placed =>
        { name := env.rowSetName counts.aliasName
          members := [block.countSelect env picks hop counts placed] } := by
  unfold countRowSet hopConditions
  simp only [Traced.result_bind, Traced.result_pure, countSelect, append_assoc, bind_assoc]
  exact bind_pure_comp _ _

variable [DecidableEq ν] {world : Context ν Statement}

/-- The edges and nodes that are counted, whichever node of the kinds of the start they belong to. -/
def countedPairs (block : Block Nested) (env : Setting) (picks : Decisions)
    (hop : Traversal) (placed : Conditions) (world : Context ν Statement) :
    Multiset (Record ν × Record ν) :=
  world.pairs.filter fun pair =>
    hop.Connects world.db env.graphId (hop.direction.nearOf world.db pair.1) pair.1 pair.2 ∧
      (∃ kind ∈ block.start.kinds, (hop.direction.nearOf world.db pair.1).2 = world.db.text kind) ∧
      world.Holds [(.edge, pair.1), (.node, pair.2)] (block.hopVisibility picks ++ placed)

@[simp] theorem countedPairs_declare (name : String) (rows : Bag ν) :
    block.countedPairs env picks hop placed (world.declare name rows) =
      block.countedPairs env picks hop placed world := by
  simp [countedPairs]

/-- The conditions of the counts hold of the edges that lead on from a node of the start kinds. -/
theorem holds_countSelect (inverse : hop.inverseEdgeKinds = []) (typed : world.Typed)
    {pair : Record ν × Record ν} (member : pair ∈ world.pairs) :
    world.Holds [(.edge, pair.1), (.node, pair.2)]
        ((.equal (graphColumn .node) (graphColumn .edge) :: node.same hop.direction.far) ++
          (block.countSelect env picks hop counts placed).conditions) ↔
      hop.Connects world.db env.graphId (hop.direction.nearOf world.db pair.1) pair.1 pair.2 ∧
        (∃ kind ∈ block.start.kinds, (hop.direction.nearOf world.db pair.1).2 = world.db.text kind) ∧
        world.Holds [(.edge, pair.1), (.node, pair.2)] (block.hopVisibility picks ++ placed) := by
  have edgeAt : lookup Row.edge [(.edge, pair.1), (.node, pair.2)] = some pair.1 := rfl
  have nodeAt : lookup Row.node [(.edge, pair.1), (.node, pair.2)] = some pair.2 := rfl
  have texts := typed .edges pair.1 (mem_pairs member).1
  have near := Direction.eval_near world.db edgeAt hop.direction
  have isText : world.db.IsTextKey (hop.direction.near.eval world.db [(.edge, pair.1), (.node, pair.2)]) := by
    rw [near]
    exact Direction.isTextKey_nearOf texts hop.direction
  have leaves : world.Holds [(.edge, pair.1), (.node, pair.2)] (hop.edgeConditions hop.direction.near) := by
    rw [edgeConditions, inverse]
    exact (holds_same isText).mpr rfl
  have nodeConditions : (hop.nodeConditions hop.direction.near : Conditions) = node.same hop.direction.far := by
    rw [nodeConditions, inverse]
    rfl
  have joins := holds_joins hop edgeAt edgeAt nodeAt rfl isText texts env.graphId
  have kinds : (Condition.kindIs hop.direction.near.kind block.start.kinds :
      Condition Statement).truth world 0 [(.edge, pair.1), (.node, pair.2)] = .yes ↔
      ∃ kind ∈ block.start.kinds, (hop.direction.nearOf world.db pair.1).2 = world.db.text kind := by
    rw [Condition.truth_kindIs, ← near]
    rfl
  rw [near, nodeConditions] at joins
  rw [← joins, ← kinds, countSelect]
  simp only [holds_append, holds_cons, holds_nil, leaves, and_true]
  constructor
  · rintro ⟨node, ⟨graph, start⟩, kind, visible, placed⟩
    exact ⟨⟨graph, node, kind⟩, start, visible, placed⟩
  · rintro ⟨⟨graph, node, kind⟩, start, visible, placed⟩
    exact ⟨node, ⟨graph, start⟩, kind, visible, placed⟩

theorem frames_countSelect (inverse : hop.inverseEdgeKinds = []) (typed : world.Typed) :
    (block.countSelect env picks hop counts placed).frames world =
      (block.countedPairs env picks hop placed world).map fun pair => [(.edge, pair.1), (.node, pair.2)] := by
  rw [Select.frames_pairs world rfl rfl, countedPairs]
  refine congrArg _ (Multiset.filter_congr fun pair member => ?_)
  exact holds_countSelect inverse typed member

/-- The row of the counts for a key, with the ids that are counted. -/
def countRow (block : Block Nested) (counts : Counts) (db : Engine ν) (key : ν × ν) (ids : Multiset ν) : Record ν :=
  [(carriedName block.start.aliasName .id, key.1), (carriedName block.start.aliasName .kind, key.2)] ++
    counts.columns.map fun entry => (countName entry.1, db.aggregate (.counting entry.2) ids)

/-- The ids of the nodes of connections. -/
def nodeIds (db : Engine ν) (pairs : Multiset (Record ν × Record ν)) : Multiset ν :=
  pairs.map fun pair => db.field pair.2 Column.id.name

/-- The rows of the counts, one for each key. -/
def countRows (block : Block Nested) (env : Setting) (picks : Decisions) (hop : Traversal)
    (counts : Counts) (placed : Conditions) (world : Context ν Statement) :
    Bag ν :=
  let pairs := block.countedPairs env picks hop placed world
  (pairs.map fun pair => hop.direction.nearOf world.db pair.1).dedup.map fun key =>
    block.countRow counts world.db key (nodeIds world.db
        (pairs.filter fun pair => hop.direction.nearOf world.db pair.1 = key))

theorem returns_countSelect (inverse : hop.inverseEdgeKinds = []) (typed : world.Typed) {rows : Bag ν} :
    (block.countSelect env picks hop counts placed).Returns world rows ↔
      rows = block.countRows env picks hop counts placed world := by
  have grouping : (block.countSelect env picks hop counts placed).IsGrouping := ⟨cons_ne_nil _ _, rfl, rfl⟩
  have near (pair : Record ν × Record ν) : hop.direction.near.eval world.db
      [(.edge, pair.1), (.node, pair.2)] = hop.direction.nearOf world.db pair.1 :=
    Direction.eval_near world.db rfl hop.direction
  have injective : Function.Injective fun key : ν × ν => [key.1, key.2] := by
    intro first second same
    simpa [Prod.ext_iff] using same
  have key : ∀ pair ∈ block.countedPairs env picks hop placed world,
      (block.countSelect env picks hop counts placed).key world [(.edge, pair.1), (.node, pair.2)] =
          [(hop.direction.nearOf world.db pair.1).1, (hop.direction.nearOf world.db pair.1).2] := by
    intro pair _
    rw [← near]
    rfl
  rw [grouping.returns_iff (grouping.groups_of_key injective (frames_countSelect inverse typed) key)]
  · rfl
  · intro key _ frame inGroup
    obtain ⟨pair, mem, rfl⟩ := Multiset.mem_map.mp inGroup
    have same := (Multiset.mem_filter.mp mem).2
    have id (other : Record ν × Record ν) : node.id.eval world.db 0
        [(.edge, other.1), (.node, other.2)] = world.db.field other.2 Column.id.name :=
      Term.eval_ofColumn world.db .node rfl .id
    have keyId (group : Multiset (Frame ν)) : hop.direction.near.id.eval world.db group
        [(.edge, pair.1), (.node, pair.2)] = key.1 := by
      rw [← same, ← near]
      cases hop.direction <;> rfl
    have keyKind (group : Multiset (Frame ν)) : hop.direction.near.kind.eval world.db group
        [(.edge, pair.1), (.node, pair.2)] = key.2 := by
      rw [← same, ← near]
      cases hop.direction <;> rfl
    simp only [Select.output, countSelect, flatMap_cons, flatMap_map, OutputColumn.record,
      keyId, keyKind, Term.eval, Multiset.map_map, Function.comp_def, id, countRow, nodeIds,
      cons_append, nil_append]
    rw [← map_eq_flatMap]

omit [DecidableEq ν] in
theorem carriedKey_countRow (db : Engine ν) (key : ν × ν) (ids : Multiset ν) :
    db.carriedKey block.start.aliasName (block.countRow counts db key ids) = key :=
  Engine.carriedKey_cons db _ key _

omit [DecidableEq ν] in
theorem field_countRow (sorted : counts.columns.Pairwise (·.1 < ·.1)) (db : Engine ν)
    (key : ν × ν) (ids : Multiset ν) {entry : Nat × Bool} (mem : entry ∈ counts.columns) :
    db.field (block.countRow counts db key ids) (countName entry.1) = db.aggregate (.counting entry.2) ids := by
  have found {columns : List (Nat × Bool)} (sorted : columns.Pairwise (·.1 < ·.1)) (mem : entry ∈ columns) :
      db.field (columns.map fun entry => (countName entry.1, db.aggregate (.counting entry.2) ids))
          (countName entry.1) = db.aggregate (.counting entry.2) ids := by
    induction columns with
    | nil => cases mem
    | cons first rest ih =>
      rw [pairwise_cons] at sorted
      rcases mem_cons.mp mem with same | later
      · rw [same, map_cons, Engine.field_cons_self]
      · have apart : Text.lowerAscii (countName entry.1) ≠ Text.lowerAscii (countName first.1) := by
          rw [lowerAscii_countName, lowerAscii_countName]
          exact fun same => Nat.ne_of_gt (sorted.1 entry later) (countName_injective same)
        rw [map_cons, Engine.field_cons_of_ne _ _ _ apart]
        exact ih sorted.2 later
  have notId := countName_ne_carriedName entry.1 block.start.aliasName (.inl rfl)
  have notKind := countName_ne_carriedName entry.1 block.start.aliasName (.inr rfl)
  rw [countRow, cons_append, cons_append, nil_append, Engine.field_cons_of_ne _ _ _ notId,
    Engine.field_cons_of_ne _ _ _ notKind, found sorted mem]

variable (inverse : hop.inverseEdgeKinds = []) {node : Record ν}
variable (member : node ∈ block.starts env picks early world)

include inverse member

/-- What is counted for the key of a start node are its connections. -/
theorem filter_countedPairs : ((block.countedPairs env picks hop placed world).filter fun pair =>
        hop.direction.nearOf world.db pair.1 = world.db.keyOf node) =
      block.connections env picks hop placed world (world.db.keyOf node) := by
  obtain ⟨kind, mem, ofKind⟩ := (spec_of_mem_starts member).2.2
  rw [countedPairs, connections, Multiset.filter_filter]
  refine Multiset.filter_congr fun pair _ => ?_
  constructor
  · rintro ⟨same, connects, _, holds⟩
    rw [same] at connects
    exact ⟨connects, holds⟩
  · rintro ⟨connects, holds⟩
    have same : hop.direction.nearOf world.db pair.1 = world.db.keyOf node := by
      rcases connects.2.2.1 with ⟨-, leaves, -⟩ | ⟨ofInverse, -⟩
      · exact leaves
      · rw [inverse] at ofInverse
        exact absurd ofInverse (not_hasKind_nil _ _)
    rw [same]
    exact ⟨rfl, connects, ⟨kind, mem, ofKind⟩, holds⟩

theorem filter_countRows : ((block.countRows env picks hop counts placed world).filter fun row =>
        world.db.carriedKey block.start.aliasName row = world.db.keyOf node) =
      if block.connections env picks hop placed world (world.db.keyOf node) = 0 then 0
      else
        {block.countRow counts world.db (world.db.keyOf node)
          (nodeIds world.db (block.connections env picks hop placed world
            (world.db.keyOf node)))} := by
  have isCounted : world.db.keyOf node ∈ (block.countedPairs env picks hop placed world).map (fun pair =>
        hop.direction.nearOf world.db pair.1) ↔
      block.connections env picks hop placed world (world.db.keyOf node) ≠ 0 := by
    rw [← filter_countedPairs inverse member, Ne, Multiset.filter_eq_nil, Multiset.mem_map]
    simp
  simp only [countRows, Multiset.filter_map, Function.comp_def, carriedKey_countRow, Multiset.filter_eq']
  split
  · next none =>
    have absent := fun counted => isCounted.mp counted none
    rw [Multiset.count_eq_zero.mpr (Multiset.mem_dedup.not.mpr absent)]
    rfl
  · next some =>
    have mem := Multiset.mem_dedup.mpr (isCounted.mpr some)
    rw [Multiset.count_eq_one_of_mem (Multiset.nodup_dedup _) mem, Multiset.replicate_one,
      Multiset.map_singleton, filter_countedPairs inverse member]

end Block

end GraphSql
