import GraphSql.Proofs.Compile
import GraphSql.Proofs.Equivalence.CountRows
import GraphSql.Proofs.Semantics.Datum

namespace GraphSql

open Context Level List Multiset

variable {ν : Type}

section Counting

variable [DecidableEq ν] (db : Engine ν) (distinct : Bool)

theorem Engine.counting_null : db.aggregate (.counting distinct) {db.null} = db.integer 0 := by
  cases distinct with
  | false => exact (db.count _).trans (by simp [Multiset.filter_singleton])
  | true => exact (db.countDistinct _).trans (by simp [Multiset.filter_singleton])

theorem Engine.counting_ne_null (values : Multiset ν) : db.aggregate (.counting distinct) values ≠ db.null := by
  cases distinct with
  | false => exact fun null => db.integer_ne_null _ ((db.count values).symm.trans null)
  | true => exact fun null => db.integer_ne_null _ ((db.countDistinct values).symm.trans null)

end Counting

variable {frame : Frame ν} {node : Record ν}

namespace Block

variable {block : Block Nested} {env : Setting} {picks : Decisions} {hop : Traversal}
variable {counts : Counts} {early placed : Conditions}

section Statement

/-- The level of a query that is computed from counts. -/
def countLevel (block : Block Nested) (env : Setting) (picks : Decisions) (hop : Traversal)
    (counts : Counts) (early placed : Conditions)
    (select : Select Statement) : Level Statement where
  rowSets :=
    [{ name := env.rowSetName block.start.aliasName
       members := [block.startSelect env picks early] },
      { name := env.rowSetName counts.aliasName
        members := [block.countSelect env picks hop counts placed] }]
  select := select

namespace Counted

variable (counted : block.Counted picks hop counts)

include counted

theorem result_chainLevel : (block.chainLevel env picks).result = do
      let early ← block.loweredStart env picks
      let placed ← block.loweredHop env picks hop
      let select ← (block.chainSelect env picks).result
      return block.countLevel env picks hop counts early placed select := by
  unfold chainLevel
  simp only [Traced.result_bind, Traced.result_pure, result_startRowSet counted.one.vector,
    counted.one.traversals, hopRowSets, counted.found, counted.nodeAlias, if_true,
    result_countRowSet, bind_of_map, LawfulMonad.bind_assoc]
  rfl

end Counted

/-- The two statements of a counted query: with counts, and with a group of rows for each start. -/
def LevelsAgree (block : Block Nested) (env : Setting) (picks : Decisions) (hop : Traversal)
    (counts : Counts) (level grouped : Level Statement) : Prop :=
  ∃ early placed select groupedSelect,
    (block.lowerPlaced env.opts.dialect picks hop.scope (some hop.nodeAlias)).result = .ok placed ∧
    block.FinalAgree env picks hop counts select groupedSelect ∧
    level = block.countLevel env picks hop counts early placed select ∧
    grouped = block.hopLevel env picks.withoutCounts hop early placed groupedSelect

theorem Counted.chainLevel_agree (counted : block.Counted picks hop counts)
    (limit : block.limit = none) (offset : block.offset = none) :
    Agree (block.LevelsAgree env picks hop counts) (block.chainLevel env picks).result
      (block.chainLevel env picks.withoutCounts).result := by
  rw [counted.result_chainLevel, counted.one.withoutCounts.result_chainLevel rfl]
  apply agree_bind_same
  intro early
  cases lowered : block.loweredHop env picks hop with
  | error error =>
    have other : block.loweredHop env picks.withoutCounts hop = .error error := lowered
    rw [other]
    trivial
  | ok placed =>
    have other : block.loweredHop env picks.withoutCounts hop = .ok placed := lowered
    rw [other]
    apply (counted.chainSelect_agree limit offset).bind
    intro select grouped final
    exact ⟨early, placed, select, grouped, lowered, final, rfl, rfl⟩

end Statement

section Meaning

variable [DecidableEq ν] {world : Context ν Statement}

section

variable (block : Block Nested) (env : Setting) (picks : Decisions)

/-- The rows of the row sets of a query that is computed from counts. -/
def countContext (hop : Traversal) (counts : Counts) (early placed : Conditions) (world : Context ν Statement) :
    Context ν Statement :=
  (world.declare (env.rowSetName block.start.aliasName) ((block.starts env picks early world).map
      (block.startRow picks world.db))).declare (env.rowSetName counts.aliasName)
    (block.countRows env picks hop counts placed world)

/-- The start nodes that have a row in the result: those with connections, or all of them if the hop
is optional. -/
def keptStarts (hop : Traversal) (early placed : Conditions) (world : Context ν Statement) : Bag ν :=
  (block.starts env picks early world).filter fun node =>
    hop.optional = true ∨ block.connections env picks hop placed world (world.db.keyOf node) ≠ 0

/-- A start node with its counts. -/
def countFrame (hop : Traversal) (counts : Counts) (placed : Conditions)
    (world : Context ν Statement) (node : Record ν) : Frame ν :=
  [(.relation (env.rowSetName block.start.aliasName), block.startRow picks world.db node),
    (.relation (env.rowSetName counts.aliasName),
      if block.connections env picks hop placed world (world.db.keyOf node) = 0 then
        []
      else
        block.countRow counts world.db (world.db.keyOf node)
          (nodeIds world.db (block.connections env picks hop placed world (world.db.keyOf node))))]

/-- The rows in reach that belong to a start node. -/
def startGroup (hop : Traversal) (placed : Conditions)
    (world : Context ν Statement) (node : Record ν) : Multiset (Frame ν) :=
  rejoin (if hop.optional then .left else .inner) (env.rowSetName block.start.aliasName)
    (env.rowSetName hop.nodeAlias)
    ((block.connections env picks hop placed world (world.db.keyOf node)).map
      (hopRow picks hop world.db (world.db.keyOf node)))
    (block.startRow picks world.db node)

end

theorem startGroup_of_some (some : block.connections env picks hop placed world (world.db.keyOf node) ≠ 0) :
    block.startGroup env picks hop placed world node =
      (block.connections env picks hop placed world (world.db.keyOf node)).map fun pair =>
          [(.relation (env.rowSetName block.start.aliasName), block.startRow picks world.db node),
            (.relation (env.rowSetName hop.nodeAlias), hopRow picks hop world.db (world.db.keyOf node) pair)] := by
  simp [startGroup, rejoin, some]

theorem startGroup_of_none (none : block.connections env picks hop placed world (world.db.keyOf node) = 0) :
    block.startGroup env picks hop placed world node = if hop.optional = true then
        {[(.relation (env.rowSetName block.start.aliasName), block.startRow picks world.db node),
          (.relation (env.rowSetName hop.nodeAlias), [])]}
      else 0 := by
  by_cases optional : hop.optional = true <;> simp [startGroup, rejoin, none, optional]

/-- Start nodes that are not kept have no row in reach. -/
theorem rejoined_eq_bind : block.rejoined env picks hop early placed world =
      (block.keptStarts env picks hop early placed world).bind (block.startGroup env picks hop placed world) := by
  rw [keptStarts, bind_filter]
  refine Multiset.bind_congr fun node _ => ?_
  change block.startGroup env picks hop placed world node = _
  split
  · rfl
  · next dropped =>
    rw [not_or, not_ne_iff] at dropped
    rw [startGroup_of_none dropped.2, if_neg dropped.1]

theorem exists_mem_startGroup (kept : node ∈ block.keptStarts env picks hop early placed world) :
    ∃ frame, frame ∈ block.startGroup env picks hop placed world node := by
  by_cases none : block.connections env picks hop placed world (world.db.keyOf node) = 0
  · have optional := (Multiset.mem_filter.mp kept).2.resolve_right (not_not.mpr none)
    rw [startGroup_of_none none, if_pos optional]
    exact ⟨_, Multiset.mem_singleton_self _⟩
  · obtain ⟨pair, mem⟩ := exists_mem_of_ne_zero none
    rw [startGroup_of_some none]
    exact ⟨_, Multiset.mem_map_of_mem _ mem⟩

theorem lookup_of_mem_startGroup (mem : frame ∈ block.startGroup env picks hop placed world node) :
    frame.lookup (.relation (env.rowSetName block.start.aliasName)) = some (block.startRow picks world.db node) := by
  by_cases none : block.connections env picks hop placed world (world.db.keyOf node) = 0
  · rw [startGroup_of_none none] at mem
    split at mem
    · rw [Multiset.mem_singleton.mp mem]
      exact lookup_cons_self
    · cases notMem_zero _ mem
  · rw [startGroup_of_some none] at mem
    obtain ⟨pair, -, rfl⟩ := Multiset.mem_map.mp mem
    exact lookup_cons_self

namespace Counted

variable (counted : block.Counted picks hop counts)

include counted

theorem prepares_countLevel (typed : world.Typed) (select : Select Statement) {after : Context ν Statement} :
    Level.Prepares false world (block.countLevel env picks hop counts early placed select).rowSets after ↔
      after = block.countContext env picks hop counts early placed world := by
  have rows (others : Bag ν) : (block.countSelect env picks hop counts placed).Returns
          (world.declare (env.rowSetName block.start.aliasName) (block.startRows env picks early world)) others ↔
        others = block.countRows env picks hop counts placed world := by
    rw [returns_countSelect counted.inverse (typed.declare _ _)]
    simp [countRows]
  unfold countLevel
  rw [prepares_iff_of_two rfl rfl]
  simp [returns_startSelect, rows, countContext]

theorem frames_countLevel (typed : world.Typed) (apart : block.start.aliasName ≠ counts.aliasName)
    (columns : List OutputColumn) (orderBy : List SortKey) :
    (block.finalSelect env picks columns [] orderBy).frames
        (block.countContext env picks hop counts early placed world) =
      (block.keptStarts env picks hop early placed world).map
        (block.countFrame env picks hop counts placed world) := by
  have namesApart : env.rowSetName block.start.aliasName ≠ env.rowSetName counts.aliasName :=
    fun same => apart (rowSetName_injective _ same)
  have joins : (block.finalSelect env picks columns [] orderBy).joins =
      [{ kind := if hop.optional then .left else .inner
         source := .relation (env.rowSetName counts.aliasName) none
         conditions :=
           (NodeKey.carried (.relation (env.rowSetName counts.aliasName)) block.start.aliasName).same
             (.carried (.relation (env.rowSetName block.start.aliasName))
               block.start.aliasName) }] := by
    simp [finalSelect, counted.one.traversals, rowSetJoin, Setting.hopName, counted.found,
      counted.nodeAlias, counted.one.joinFrom]
  have key (node : Record ν) := counted.one.carriedKey_startRow world.db node
  rw [countContext, Select.frames_rejoin namesApart rfl joins fun _ mem => counted.one.isTextKey_startRow typed mem]
  simp only [finalSelect, holds_nil, Multiset.filter_true, bind_map, key]
  rw [keptStarts, ← bind_singleton, bind_filter]
  refine Multiset.bind_congr fun node mem => ?_
  rw [filter_countRows counted.inverse mem]
  by_cases none : block.connections env picks hop placed world (world.db.keyOf node) = 0
  · by_cases optional : hop.optional = true <;> simp [rejoin, countFrame, none, optional]
  · by_cases optional : hop.optional = true <;> simp [rejoin, countFrame, none, optional]

/-- The term of a count, which is zero for a start node that an optional hop leaves alone. -/
theorem countTerm_eq {entry : Nat × Bool} (mem : entry ∈ counts.columns) {term : Term}
    (found : block.countTerm env picks entry.1 = some term) :
    term = if hop.optional = true then
        .orZero (.column (.relation (env.rowSetName counts.aliasName)) (countName entry.1))
      else .column (.relation (env.rowSetName counts.aliasName)) (countName entry.1) := by
  have any : counts.columns.any (·.1 == entry.1) = true := any_eq_true.mpr ⟨entry, mem, beq_self_eq_true _⟩
  simp only [countTerm, counted.found, any, if_true, counted.one.traversals, head?_cons,
    Option.map_some, Option.getD_some] at found
  split at found
  · next optional => rw [if_pos optional, ← Option.some_inj.mp found]
  · next required => rw [if_neg required, ← Option.some_inj.mp found]

theorem read_countFrame (apart : block.start.aliasName ≠ counts.aliasName) (node : Record ν)
    {entry : Nat × Bool} (mem : entry ∈ counts.columns) :
    world.db.read (block.countFrame env picks hop counts placed world node)
        (.column (.relation (env.rowSetName counts.aliasName)) (countName entry.1)) =
      if block.connections env picks hop placed world (world.db.keyOf node) = 0 then
        world.db.null
      else
        world.db.aggregate (.counting entry.2) (nodeIds world.db (block.connections env picks hop placed world
            (world.db.keyOf node))) := by
  have different : (Row.relation (env.rowSetName counts.aliasName) ==
      Row.relation (env.rowSetName block.start.aliasName)) = false :=
    beq_false_of_ne fun same => apart (rowSetName_injective _ (Row.relation.inj same)).symm
  have sorted := (countColumns_sorted counted.columns).2
  simp only [Engine.read, countFrame, lookup_cons, different, beq_self_eq_true]
  split
  · rfl
  · exact field_countRow sorted _ _ _ mem

/-- The ids that the aggregates count for a start node. -/
theorem eval_startGroup (names : block.Apart .ignored)
    (kept : node ∈ block.keptStarts env picks hop early placed world) :
    ((block.startGroup env picks hop placed world node).map fun mem => (countedId env hop).eval world.db 0 mem) =
      if block.connections env picks hop placed world (world.db.keyOf node) = 0 then
        {world.db.null}
      else
        nodeIds world.db (block.connections env picks hop placed world (world.db.keyOf node)) := by
  have different : (Row.relation (env.rowSetName hop.nodeAlias) ==
      Row.relation (env.rowSetName block.start.aliasName)) = false :=
    beq_false_of_ne fun same => counted.one.rowSetNames_ne (Row.relation.inj same).symm
  have id (pair : Record ν × Record ν) := counted.one.field_hopRow names world.db
    (world.db.keyOf node) pair (counted.one.fit.id hop.nodeAlias) rfl
  split
  · next none =>
    have optional := (Multiset.mem_filter.mp kept).2.resolve_right (not_not.mpr none)
    rw [startGroup_of_none none, if_pos optional, Multiset.map_singleton]
    simp only [countedId, Term.eval, Engine.read, lookup_cons, different, beq_self_eq_true]
    rfl
  · next some =>
    rw [startGroup_of_some some, Multiset.map_map]
    simp [countedId, Term.eval, Engine.read, lookup_cons, different, id, nodeIds]

/-- The counts of a start node are what the aggregates make of its rows. -/
theorem countsMatch (names : block.Apart .ignored) (apart : block.start.aliasName ≠ counts.aliasName)
    (kept : node ∈ block.keptStarts env picks hop early placed world)
    (member : frame ∈ block.startGroup env picks hop placed world node) :
    block.CountsMatch env picks hop counts world.db (block.countFrame env picks hop counts placed world node)
      (block.startGroup env picks hop placed world node) frame := by
  have start := lookup_of_mem_startGroup member
  refine ⟨by rw [start]; exact lookup_cons_self, ?_⟩
  intro entry mem term found
  have value : (Term.column (.relation (env.rowSetName counts.aliasName)) (countName entry.1)).eval world.db 0
        (block.countFrame env picks hop counts placed world node) = _ :=
    counted.read_countFrame apart node mem
  have aggregated : (Term.aggregate (.counting entry.2) (countedId env hop)).eval
      world.db (block.startGroup env picks hop placed world node) frame = _ :=
    congrArg (world.db.aggregate (.counting entry.2)) (counted.eval_startGroup names kept)
  rw [counted.countTerm_eq mem found, aggregated]
  by_cases none : block.connections env picks hop placed world (world.db.keyOf node) = 0
  · have optional := (Multiset.mem_filter.mp kept).2.resolve_right (not_not.mpr none)
    rw [if_pos none] at value
    rw [if_pos optional, if_pos none, Engine.counting_null, Term.eval, value]
    exact if_pos rfl
  · rw [if_neg none] at value
    rw [if_neg none]
    split
    · rw [Term.eval, value]
      exact if_neg (Engine.counting_ne_null _ _ _)
    · exact value

theorem returns_counted (typed : world.Typed) (apart : block.start.aliasName ≠ counts.aliasName)
    {columns : List OutputColumn} (plain : ∀ column ∈ columns, column.isAggregate = false)
    (orderBy : List SortKey) {result : Bag ν} :
    (block.finalSelect env picks columns [] orderBy).Returns
        (block.countContext env picks hop counts early placed world) result ↔
      result = (block.keptStarts env picks hop early placed world).map fun node =>
        columns.flatMap (OutputColumn.record world.db 0
          (block.countFrame env picks hop counts placed world node)) := by
  have isPlain : (block.finalSelect env picks columns [] orderBy).IsPlain := ⟨rfl, rfl, plain, rfl⟩
  rw [isPlain.returns_iff, counted.frames_countLevel typed apart, Multiset.map_map]
  rfl

theorem eval_startKey (mem : frame ∈ block.startGroup env picks hop placed world node) :
    (block.startKey env).eval world.db frame = world.db.keyOf node := by
  rw [startKey, NodeKey.eval_carried _ (lookup_of_mem_startGroup mem), counted.one.carriedKey_startRow]

section Grouped

variable (typed : world.Typed) (unique : world.UniqueNodes) (aggregates : List OutputColumn) (orderBy : List SortKey)

include typed unique

theorem frames_grouped : (block.groupedSelect env picks aggregates orderBy).frames
        (block.hopContext env picks.withoutCounts hop early placed world) =
      block.rejoined env picks hop early placed world := by
  rw [counted.one.withoutCounts.frames_chainSelect typed unique rfl rfl rfl]
  simp only [groupedSelect, finalSelect, holds_nil, Multiset.filter_true]
  rfl

/-- Without counts, there is one group for each id of the start nodes that are kept. -/
theorem groups_grouped : (block.groupedSelect env picks aggregates orderBy).groups
        (block.hopContext env picks.withoutCounts hop early placed world) =
      ((block.keptStarts env picks hop early placed world).map fun node =>
        (world.db.keyOf node).1).dedup.map fun id =>
          (block.rejoined env picks hop early placed world).filter fun frame =>
            ((block.startKey env).eval world.db frame).1 = id := by
  have grouping : (block.groupedSelect env picks aggregates orderBy).IsGrouping := ⟨cons_ne_nil _ _, rfl, rfl⟩
  have injective : Function.Injective fun id : ν => [id] := singleton_injective
  have frames : (block.groupedSelect env picks aggregates orderBy).frames
      (block.hopContext env picks.withoutCounts hop early placed world) =
        (block.rejoined env picks hop early placed world).map id := by
    rw [Multiset.map_id]
    exact counted.frames_grouped typed unique aggregates orderBy
  have key : ∀ frame ∈ block.rejoined env picks hop early placed world,
      (block.groupedSelect env picks aggregates orderBy).key
        (block.hopContext env picks.withoutCounts hop early placed world) (id frame) =
          [((block.startKey env).eval world.db frame).1] := fun _ _ => rfl
  have ids : ((block.rejoined env picks hop early placed world).map fun frame =>
      ((block.startKey env).eval world.db frame).1).dedup =
      ((block.keptStarts env picks hop early placed world).map fun node => (world.db.keyOf node).1).dedup := by
    refine dedup_ext.mpr fun id => ?_
    simp only [rejoined_eq_bind, Multiset.mem_map, mem_bind]
    constructor
    · rintro ⟨frame, ⟨node, kept, mem⟩, same⟩
      rw [counted.eval_startKey mem] at same
      exact ⟨node, kept, same⟩
    · rintro ⟨node, kept, same⟩
      obtain ⟨frame, mem⟩ := exists_mem_startGroup kept
      rw [← counted.eval_startKey mem] at same
      exact ⟨frame, ⟨node, kept, mem⟩, same⟩
  rw [grouping.groups_of_key injective frames key, ids]
  simp only [Multiset.map_id]

/-- Where the ids are distinct, the rows of each start node are a group. -/
theorem groups_of_distinct (distinct : ((block.keptStarts env picks hop early placed world).map fun node =>
      (world.db.keyOf node).1).Nodup) :
    (block.groupedSelect env picks aggregates orderBy).groups
        (block.hopContext env picks.withoutCounts hop early placed world) =
      (block.keptStarts env picks hop early placed world).map (block.startGroup env picks hop placed world) := by
  rw [counted.groups_grouped typed unique, Multiset.dedup_eq_self.mpr distinct, Multiset.map_map, rejoined_eq_bind]
  refine Multiset.map_congr rfl fun node kept => ?_
  refine filter_bind_eq_of_key distinct ?_ kept
  intro other _ frame mem
  rw [counted.eval_startKey mem]

end Grouped

/-- The statement with counts returns the same rows as the one that groups exactly if no two start
nodes that are kept share an id. -/
theorem returns_agree_iff (typed : world.Typed) (unique : world.UniqueNodes)
    (names : block.Apart .ignored) (apart : block.start.aliasName ≠ counts.aliasName) {columns aggregates : List OutputColumn}
    (countsAs : block.CountsAs env picks hop counts columns aggregates)
    (orderBy : List SortKey) :
    (∀ result, (block.finalSelect env picks columns [] orderBy).Returns
        (block.countContext env picks hop counts early placed world) result ↔
      (block.groupedSelect env picks aggregates orderBy).Returns
        (block.hopContext env picks.withoutCounts hop early placed world) result) ↔
      ((block.keptStarts env picks hop early placed world).map fun node => (world.db.keyOf node).1).Nodup := by
  have grouping : (block.groupedSelect env picks aggregates orderBy).IsGrouping := ⟨cons_ne_nil _ _, rfl, rfl⟩
  simp only [counted.returns_counted typed apart countsAs.plain]
  constructor
  · intro same
    have card := grouping.card_eq ((same _).mp rfl)
    rw [counted.groups_grouped typed unique, card_map, card_map] at card
    rw [← Multiset.dedup_eq_self]
    exact eq_of_le_of_card_le (dedup_le _) (by rw [card_map, card])
  · intro distinct result
    rw [grouping.returns_iff (counted.groups_of_distinct typed unique aggregates orderBy distinct)]
    intro node kept frame mem
    exact (countsAs.record_eq (counted.countsMatch names apart kept mem)).symm

end Counted

/-- Start nodes have distinct ids if those that share an id are one node. -/
theorem nodup_ids_iff (unique : world.UniqueNodes) :
    ((block.keptStarts env picks hop early placed world).map fun node => (world.db.keyOf node).1).Nodup ↔
      ∀ node ∈ block.keptStarts env picks hop early placed world,
        ∀ other ∈ block.keptStarts env picks hop early placed world,
          (world.db.keyOf node).1 = (world.db.keyOf other).1 → world.db.keyOf node = world.db.keyOf other := by
  have keys : ((block.keptStarts env picks hop early placed world).map world.db.keyOf).Nodup :=
    nodup_of_le (map_le_map (filter_le _ _)) (nodup_starts unique)
  have ids : ((block.keptStarts env picks hop early placed world).map
      world.db.keyOf).map Prod.fst = (block.keptStarts env picks hop early placed world).map fun node =>
          (world.db.keyOf node).1 := Multiset.map_map _ _ _
  constructor
  · intro distinct node kept other otherKept same
    rw [Multiset.inj_on_of_nodup_map distinct node kept other otherKept same]
  · intro one
    rw [← ids]
    refine Multiset.Nodup.map_on ?_ keys
    intro first inFirst second inSecond same
    obtain ⟨node, kept, rfl⟩ := Multiset.mem_map.mp inFirst
    obtain ⟨other, otherKept, rfl⟩ := Multiset.mem_map.mp inSecond
    exact one node kept other otherKept same

/-- No two start nodes in reach of the SELECT of a level share an id. -/
def StartsApart (block : Block Nested) (env : Setting) (world : Context ν Statement)
    (level : Level Statement) : Prop :=
  ∀ frames, level.Reaches world frames → ∀ first ∈ frames, ∀ second ∈ frames,
    ((block.startKey env).eval world.db first).1 = ((block.startKey env).eval world.db second).1 →
      (block.startKey env).eval world.db first = (block.startKey env).eval world.db second

variable (counted : block.Counted picks hop counts) (typed : world.Typed)
variable (unique : world.UniqueNodes)

include counted typed unique

/-- Starts in reach have different ids if and only if the starts that are kept do. -/
theorem Counted.startsApart_iff (reads : Condition.ReadElements placed)
    (aggregates : List OutputColumn) (orderBy : List SortKey) :
    block.StartsApart env world (block.hopLevel env picks.withoutCounts hop early placed
          (block.groupedSelect env picks aggregates orderBy)) ↔
      ((block.keptStarts env picks hop early placed world).map fun node => (world.db.keyOf node).1).Nodup := by
  have reaches {frames : Multiset (Frame ν)} : Level.Reaches world
      (block.hopLevel env picks.withoutCounts hop early placed
        (block.groupedSelect env picks aggregates orderBy)) frames ↔
      frames = block.rejoined env picks hop early placed world := by
    rw [reaches_iff (counted.one.withoutCounts.prepares_hopLevel typed reads _)]
    exact (counted.frames_grouped typed unique aggregates orderBy) ▸ Iff.rfl
  simp only [StartsApart, reaches, forall_eq, rejoined_eq_bind, mem_bind]
  rw [nodup_ids_iff unique]
  constructor
  · intro apart node kept other otherKept same
    obtain ⟨frame, mem⟩ := exists_mem_startGroup kept
    obtain ⟨otherFrame, otherMember⟩ := exists_mem_startGroup otherKept
    rw [← counted.eval_startKey mem, ← counted.eval_startKey otherMember] at same ⊢
    exact apart frame ⟨node, kept, mem⟩ otherFrame ⟨other, otherKept, otherMember⟩ same
  · rintro one first ⟨node, kept, mem⟩ second ⟨other, otherKept, otherMember⟩ same
    rw [counted.eval_startKey mem, counted.eval_startKey otherMember] at same ⊢
    exact one node kept other otherKept same

/-- The two statements of a counted query agree exactly if its start nodes are apart. -/
theorem Counted.agree_iff_startsApart (names : block.Apart .ignored) (apart : block.start.aliasName ≠ counts.aliasName)
    {holds : Statement → Prop} (nested : block.NestedEnsures holds)
    {level grouped : Level Statement}
    (agree : block.LevelsAgree env picks hop counts level grouped) :
    (∀ result, level.Returns world result ↔ grouped.Returns world result) ↔ block.StartsApart env world grouped := by
  obtain ⟨early, placed, _, _, lowered, ⟨columns, aggregates, orderBy, countsAs, rfl, rfl⟩, rfl, rfl⟩ := agree
  have reads := counted.one.placed_ofElement nested lowered
  rw [counted.startsApart_iff typed unique reads, ← counted.returns_agree_iff typed unique names apart countsAs orderBy]
  refine forall_congr' fun result => iff_congr ?_ ?_
  · exact returns_iff (counted.prepares_countLevel typed _)
  · exact returns_iff (counted.one.withoutCounts.prepares_hopLevel typed reads _)

end Meaning

end Block

/-- A query that is computed from counts returns the same rows as the statement that groups all rows,
exactly if no two start nodes in reach share an id. Neither two columns nor the row sets of the start and
of the counts may differ in letter case only, since they are named without quotes. -/
theorem counts_agree_iff {query : Query} {opts : Options} {env : Setting}
    {picks : Decisions} {plan : Plan} {counts : Counts} {level : Level Statement}
    (analyzed :
      ((query.nested opts).analyzeChain env.opts).result = .ok (picks, plan))
    (found : picks.counts = some counts) (limit : query.block.limit = none)
    (offset : query.block.offset = none) (names : (query.nested opts).Apart .ignored)
    (apart : Text.sameUnquoted counts.aliasName query.block.start.aliasName = false)
    (compiled : ((query.nested opts).chainLevel env picks).result = .ok level) :
    ∃ grouped,
      ((query.nested opts).chainLevel env picks.withoutCounts).result = .ok grouped ∧
        ∀ {ν : Type} [DecidableEq ν] (world : Context ν Statement), world.Typed →
          world.UniqueNodes →
            ((∀ result, level.Returns world result ↔ grouped.Returns world result) ↔
              (query.nested opts).StartsApart env world grouped) := by
  obtain ⟨hop, counted⟩ := Block.counted_of_analyzeChain analyzed found
  have different : query.block.start.aliasName ≠ counts.aliasName :=
    fun same => by simp [same, Text.sameUnquoted] at apart
  obtain ⟨grouped, made, agree⟩ := (counted.chainLevel_agree limit offset).exists_ok compiled
  refine ⟨grouped, made, fun world typed unique => ?_⟩
  exact counted.agree_iff_startsApart typed unique names different (query.nested_ensures opts) agree

/-- For each person or company, the number of persons that it knows. -/
def acquaintanceCounts : Query :=
  .mk
    { start := { aliasName := "a", kinds := ["person", "company"] }
      traversals := [.outwardFrom "a" "e" "knows" "b" "person"]
      projection := [⟨"id", .field (.ofColumn "a" "id")⟩, ⟨"known", .aggregate ⟨.count, .ofAlias "b"⟩⟩]
      groupBy := [.ofColumn "a" "id"] }

namespace acquaintanceCounts

def env : Setting where
  opts := {}
  graphId := "people"

def picks : Decisions := (acquaintanceCounts.nested {}).chainDecisions {} none

def counts : Counts where
  nodeAlias := "b"
  columns := [(1, false)]

/-- A person and a company with ids of their own. -/
def strangers : Context Datum Statement :=
  Datum.graph "people" [("person", "ada"), ("company", "acme"), ("person", "eve")]
    [⟨"1", "knows", ("person", "ada"), ("person", "eve")⟩, ⟨"2", "knows", ("company", "acme"), ("person", "eve")⟩]

/-- A person and a company that share an id. -/
def namesakes : Context Datum Statement :=
  Datum.graph "people" [("person", "ada"), ("company", "ada"), ("person", "eve")]
    [⟨"1", "knows", ("person", "ada"), ("person", "eve")⟩, ⟨"2", "knows", ("company", "ada"), ("person", "eve")⟩]

theorem names : (acquaintanceCounts.nested {}).Apart .ignored := Block.apart_of_noBar (by decide) (by decide)

theorem counted : (acquaintanceCounts.nested {}).Counted picks
    (.outwardFrom "a" "e" "knows" "b" "person") counts := by
  have analyzed : ((acquaintanceCounts.nested {}).analyzeChain {}).result = .ok (picks, _) := rfl
  obtain ⟨hop, counted⟩ := Block.counted_of_analyzeChain analyzed rfl
  obtain rfl := (List.cons.inj counted.one.traversals).1
  exact counted

/-- The columns with the count. -/
def columns : List OutputColumn :=
  [.quoted (.column (.relation "cte_a") "a_id") "id", .quoted (.column (.relation "cte_b_counts") "agg_1") "known"]

/-- The columns with the aggregate. -/
def aggregates : List OutputColumn :=
  [.quoted (.column (.relation "cte_a") "a_id") "id",
    .quoted (.aggregate .count (.column (.relation "cte_b") "b_id")) "known"]

theorem result_counted : ((acquaintanceCounts.nested {}).chainLevel env picks).result =
      .ok ((acquaintanceCounts.nested {}).countLevel env picks
        (.outwardFrom "a" "e" "knows" "b" "person") counts [] []
        ((acquaintanceCounts.nested {}).finalSelect env picks columns [] [])) := rfl

theorem result_grouped : ((acquaintanceCounts.nested {}).chainLevel env picks.withoutCounts).result =
      .ok ((acquaintanceCounts.nested {}).hopLevel env picks.withoutCounts
        (.outwardFrom "a" "e" "knows" "b" "person") [] []
        ((acquaintanceCounts.nested {}).groupedSelect env picks aggregates [])) := rfl

theorem strangers_agree :
    ∃ level grouped,
      ((acquaintanceCounts.nested {}).chainLevel env picks).result = .ok level ∧
        ((acquaintanceCounts.nested {}).chainLevel env picks.withoutCounts).result =
          .ok grouped ∧
        ∀ result, level.Returns strangers result ↔ grouped.Returns strangers result := by
  have analyzed : ((acquaintanceCounts.nested {}).analyzeChain env.opts).result =
      .ok (picks, _) := rfl
  have found : picks.counts = some counts := rfl
  have typed : strangers.Typed := Datum.graph_typed _ _ _
  have unique : strangers.UniqueNodes := by
    unfold Context.UniqueNodes
    decide
  obtain ⟨grouped, made, agree⟩ := counts_agree_iff analyzed found rfl rfl names (by decide) rfl
  refine ⟨_, grouped, rfl, made, (agree strangers typed unique).mpr ?_⟩
  rw [← Except.ok.inj (result_grouped.symm.trans made),
    counted.startsApart_iff typed unique (by simp)]
  decide +kernel

/-- A person and a company that share an id have a row each if they are counted, but not if all rows
are grouped by the id. -/
theorem namesakes_disagree :
    namesakes.Typed ∧ namesakes.UniqueNodes ∧
      ((namesakes.tables .edges).map fun edge =>
        (namesakes.db.field edge "graph_id", namesakes.db.field edge "id")).Nodup ∧
      ∃ level grouped,
        ((acquaintanceCounts.nested {}).chainLevel env picks).result = .ok level ∧
          ((acquaintanceCounts.nested {}).chainLevel env picks.withoutCounts).result =
            .ok grouped ∧
          level.Returns namesakes
            {[("id", .text "ada"), ("known", .integer 1)],
              [("id", .text "ada"), ("known", .integer 1)]} ∧
          ¬ grouped.Returns namesakes
            {[("id", .text "ada"), ("known", .integer 1)],
              [("id", .text "ada"), ("known", .integer 1)]} := by
  have typed : namesakes.Typed := Datum.graph_typed _ _ _
  have unique : namesakes.UniqueNodes := by
    unfold Context.UniqueNodes
    decide
  have grouping : ((acquaintanceCounts.nested {}).groupedSelect env picks aggregates
      []).IsGrouping := ⟨List.cons_ne_nil _ _, rfl, rfl⟩
  refine ⟨typed, unique, by decide, _, _, result_counted, result_grouped, ?_, ?_⟩
  · rw [Level.returns_iff (counted.prepares_countLevel typed _)]
    exact (counted.returns_counted typed (by decide) (by decide) []).mpr (by decide +kernel)
  · rw [Level.returns_iff (counted.one.withoutCounts.prepares_hopLevel typed (by simp) _)]
    intro returns
    have card := grouping.card_eq returns
    rw [counted.groups_grouped typed unique, Multiset.card_map] at card
    exact absurd card (by decide +kernel)

end acquaintanceCounts

end GraphSql
