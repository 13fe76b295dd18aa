import GraphSql.Proofs.Compile
import GraphSql.Proofs.Walks.Trail

namespace GraphSql

open Datum Multiset Traced Trail

variable {ν : Type}

/-- The depths of a walk are those that the query gives, and at most 100 steps where it gives none. -/
theorem WalkSpec.depthRange_spec {spec : WalkSpec} {range : DepthRange} (ranged : spec.depthRange = .ok range) :
    range.least = spec.minDepth ∧ (range.greatest.toNat : Int) =
        if spec.maxDepth.toInt = -1 then 100 else spec.maxDepth.toInt := by
  obtain ⟨greatest, given, rest⟩ := exists_of_bind_eq_ok ranged
  split at rest
  · cases rest
  · cases rest
    refine ⟨rfl, ?_⟩
    unfold greatestDepth at given
    dsimp only at given
    split at given
    · next unbounded =>
      cases given
      rw [if_pos unbounded]
      rfl
    · next bounded =>
      rw [if_neg bounded]
      split at given
      · cases given
      · split at given
        · cases given
        · next most least =>
          cases given
          have limit : maxDepthLimit.toNat = 1000 := rfl
          simp only [UInt32.toNat_ofNat']
          omega

variable {select : Select Statement}

namespace Walk

variable [DecidableEq ν] {world : Context ν Statement}
variable {block : Block Nested} {env : Setting} {picks : Decisions} {walk : Walk}
variable {early placed rest : Conditions}

/-- Where no path is tracked, the walks that are built are all walks of open steps. -/
theorem builds_iff (free : walk.walk.tracksPath = false) {trail : Trail ν} :
    walk.Builds block env picks early placed world trail ↔ trail.start ∈ block.starts env picks early world ∧
        Trail.Follows (walk.Opens block env picks placed world) trail.start trail.steps ∧
        trail.length ≤ walk.range.greatest.toNat := by
  have opens (before : Trail ν) (step : Record ν × Record ν) :
      step ∈ walk.extensions block env picks placed world (before.position world.db) ↔
        walk.Opens block env picks placed world before.finish step ∧ before.length < walk.range.greatest.toNat := by
    simp [mem_extensions, free]
  constructor
  · intro builds
    refine ⟨?_, ?_, builds.length_le⟩
    · induction builds with
      | start mem => exact mem
      | step _ _ ih => exact ih
    · induction builds with
      | start mem => trivial
      | step _ taken ih => exact (follows_extend _ _).mpr ⟨ih, ((opens _ _).mp taken).1⟩
  · rintro ⟨mem, follows, short⟩
    induction trail using Trail.induction with
    | start node => exact .start mem
    | step trail step ih =>
      obtain ⟨before, taken⟩ := (follows_extend trail step).mp follows
      rw [length_extend] at short
      exact .step (ih mem before (Nat.le_of_succ_le short)) ((opens trail step).mpr ⟨taken, short⟩)

/-- A level has one row in reach for each walk through a graph that its query asks for. -/
structure Enumerates (walk : Walk) (block : Block Nested) (env : Setting) (picks : Decisions)
    (early placed rest : Conditions) (level : Level Statement)
    (world : Context ν Statement) (trails : Finset (Trail ν)) (row : Trail ν → Record ν) :
    Prop where
  /-- The walks lead from a start node by open steps, as far as the query asks for. -/
  walks : ∀ trail, trail ∈ trails ↔ trail.start ∈ block.starts env picks early world ∧
      Trail.Follows (walk.Opens block env picks placed world) trail.start trail.steps ∧
      walk.walk.minDepth.toNat ≤ trail.length ∧
      (trail.length : Int) ≤ if walk.walk.maxDepth.toInt = -1 then 100 else walk.walk.maxDepth.toInt
  /-- The rounds of the row set come to an end. -/
  rounds : ∃ after, Level.Prepares level.isRecursive world level.rowSets after
  /-- Each walk is in reach once if it meets the predicates that are not placed in the row set. -/
  frames : ∀ frames, level.Reaches world frames ↔
    frames = (trails.val.map fun trail => [(.relation (rowSetName env), row trail)]).filter
      (world.Holds · rest)
  depth : ∀ trail, world.db.field (row trail) depthName = world.db.integer trail.length
  start : ∀ trail, ∀ column : Column, column.existsOn .node = true →
    world.db.field (row trail) (carriedName block.start.aliasName column) = world.db.field trail.start column.name
  finish : ∀ trail, ∀ column : Column, column.existsOn .node = true →
    world.db.field (row trail) (carriedName walk.hop.nodeAlias column) = world.db.field trail.finish column.name
  /-- A SELECT that does not group returns one row for each of them. -/
  returns : level.select.IsPlain → ∀ result, level.Returns world result ↔ result = (trails.val.filter fun trail =>
      world.Holds [(.relation (rowSetName env), row trail)] rest).map fun trail =>
        level.select.output world 0 [(.relation (rowSetName env), row trail)]

omit [DecidableEq ν] in
theorem select_spec (selected : (walk.select block env picks).result = .ok select) : ∃ rest,
      (block.lowerPlaced env.opts.dialect picks (walk.output block env picks).scope none).result = .ok rest ∧
      select.source = .relation (rowSetName env) none ∧ select.joins = [] ∧
      select.conditions = walk.depthConditions ++ rest := by
  rw [result_select] at selected
  obtain ⟨columns, -, afterColumns⟩ := exists_of_bind_eq_ok selected
  obtain ⟨rest, lowered, afterRest⟩ := exists_of_bind_eq_ok afterColumns
  obtain ⟨groupBy, -, afterGroupBy⟩ := exists_of_bind_eq_ok afterRest
  obtain ⟨having, -, afterHaving⟩ := exists_of_bind_eq_ok afterGroupBy
  obtain ⟨orderBy, -, made⟩ := exists_of_bind_eq_ok afterHaving
  cases made
  exact ⟨rest, lowered, rfl, rfl, rfl⟩

/-- The walks of a length that the query asks for. -/
def longTrails (walk : Walk) (block : Block Nested) (env : Setting) (picks : Decisions)
    (early placed : Conditions) (world : Context ν Statement)
    (nodes : world.UniqueNodes) (edges : world.UniqueEdges) : Finset (Trail ν) :=
  ⟨(walk.trails block env picks early placed world).filter fun trail =>
      walk.range.least.toNat ≤ trail.length, (nodup_trails nodes edges).filter _⟩

end Walk

namespace Block.OneWalk

variable [DecidableEq ν] {world : Context ν Statement}
variable {block : Block Nested} {env : Setting} {picks : Decisions} {walk : Walk}
variable {early placed rest : Conditions}

theorem enumerates (one : block.OneWalk picks walk) (free : walk.walk.tracksPath = false)
    (ranged : walk.walk.depthRange = .ok walk.range) (reads : Condition.ReadElements placed)
    (source : select.source = .relation (Walk.rowSetName env) none) (joins : select.joins = [])
    (filters : select.conditions = walk.depthConditions ++ rest) (typed : world.Typed)
    (nodes : world.UniqueNodes) (edges : world.UniqueEdges) :
    walk.Enumerates block env picks early placed rest (walk.level block env picks early placed select) world
      (walk.longTrails block env picks early placed world nodes edges)
      fun trail => walk.row block picks world.db (trail.position world.db) := by
  obtain ⟨least, greatest⟩ := WalkSpec.depthRange_spec ranged
  have prepares {after : Context ν Statement} : Level.Prepares true world
      (walk.level block env picks early placed select).rowSets after ↔
        after = walk.walkContext block env picks early placed world :=
    one.prepares_level typed reads early select
  have frames : select.frames (walk.walkContext block env picks early placed world) =
      ((walk.longTrails block env picks early placed world nodes edges).val.map
        fun trail => [(.relation (Walk.rowSetName env),
          walk.row block picks world.db (trail.position world.db))]).filter (world.Holds · rest) := by
    have long : ((walk.walks block env picks early placed world).filter
        fun position => walk.range.least.toNat ≤ position.depth) =
          (walk.longTrails block env picks early placed world nodes edges).val.map (position world.db) := by
      rw [Walk.walks_eq_trails, filter_map]
      simp only [Function.comp_def, (position_spec world.db _).2.2]
      rfl
    rw [frames_select source joins filters, long, map_map]
    rfl
  refine ⟨fun trail => ?_, ⟨_, prepares.mpr rfl⟩, fun reached => ?_, fun trail => ?_,
    fun trail column present => ?_, fun trail column present => ?_, fun plain result => ?_⟩
  · rw [← greatest, Int.ofNat_le, ← least, Walk.longTrails, Finset.mem_mk, mem_filter,
      Walk.mem_trails, Walk.builds_iff free]
    tauto
  · rw [Level.reaches_iff prepares]
    exact Eq.congr_right frames
  · rw [field_depth, (trail.position_spec world.db).2.2]
  · rw [one.field_start world.db _ present, (trail.position_spec world.db).1]
  · rw [one.field_current world.db _ present, (trail.position_spec world.db).2.1]
  · have isPlain : select.IsPlain := plain
    rw [Level.returns_iff prepares]
    refine (isPlain.returns_iff _).trans (Eq.congr_right ?_)
    rw [frames, filter_map, map_map]
    rfl

end Block.OneWalk

/-- Where a query with a walk is not compiled as a plain hop, it is compiled as a walk. -/
theorem Block.compile_of_compileWalk {block : Block Nested} {env : Setting} {walk : Walk}
    {level : Level Statement} {plan : Plan} (found : block.walk = .ok walk)
    {holds : Statement → Prop} (nested : block.NestedEnsures holds)
    (isSingleHop : block.isSingleHop = false)
    (compiled : (block.compileWalk env).result = .ok (level, plan)) :
    (block.compile env).result = .ok (level, plan) := by
  obtain ⟨traversals, asked, -⟩ := walk_spec found
  have isWalk : block.isWalk = true := by simp [Block.isWalk, traversals, asked]
  have checked : result (liftM (level.select.check plan)) = .ok () :=
    ((compileWalk_ensures isWalk nested env).of_ok compiled).2
  unfold compile compileLevel
  simp only [isSingleHop, isWalk, Bool.false_eq_true, if_false, if_true, result_bind, compiled]
  change result (liftM (level.select.check plan)) >>= _ = _
  rw [checked]
  rfl

/-- A query with a walk that may visit nodes again, and that does not return its path, enumerates
walks: the rounds of its row set come to an end, and the rows in reach of its final SELECT are those of
the walks through the graph whose length it asks for, once each. -/
theorem walks_enumerated {query : Query} {opts : Options} {env : Setting} {walk : Walk}
    {level : Level Statement} {plan : Plan} (found : query.block.walk = .ok walk)
    (policy : walk.walk.cyclePolicy = .allow) (pathAlias : walk.walk.pathAlias = none)
    (compiled : ((query.nested opts).compileWalk env).result = .ok (level, plan)) :
    (query.block.isSingleHop = false →
      ((query.nested opts).compile env).result = .ok (level, plan)) ∧
    ∃ early placed rest,
      ((query.nested opts).lowerPlaced env.opts.dialect
        ((query.nested opts).walkDecisions env.opts none) (query.nested opts).startScope
        (some query.block.start.aliasName)).result = .ok early ∧
      walk.placed (query.nested opts) env
        ((query.nested opts).walkDecisions env.opts none) = .ok placed ∧
      ((query.nested opts).lowerPlaced env.opts.dialect
        ((query.nested opts).walkDecisions env.opts none)
        (walk.output (query.nested opts) env
          ((query.nested opts).walkDecisions env.opts none)).scope none).result =
        .ok rest ∧
      ∀ {ν : Type} [DecidableEq ν] (world : Context ν Statement), world.Typed →
        world.UniqueNodes → world.UniqueEdges →
          ∃ (trails : Finset (Trail ν)) (row : Trail ν → Record ν),
            walk.Enumerates (query.nested opts) env
              ((query.nested opts).walkDecisions env.opts none) early placed rest level
              world trails row := by
  have walked : (query.nested opts).walk = .ok walk := found
  have nested := query.nested_ensures opts
  obtain ⟨-, -, ranged⟩ := Block.walk_spec walked
  obtain ⟨one, early, placed, select, atStart, lowered, selected, rfl⟩ :=
    Block.compileWalk_spec walked compiled
  obtain ⟨rest, late, source, joins, filters⟩ := Walk.select_spec selected
  have free : walk.walk.tracksPath = false := by simp [WalkSpec.tracksPath, policy, pathAlias]
  refine ⟨fun isSingleHop => Block.compile_of_compileWalk walked nested isSingleHop compiled,
    early, placed, rest, atStart, lowered, late, fun world typed nodes edges => ?_⟩
  exact ⟨_, _, one.enumerates free ranged (one.placed_ofElement nested lowered) source joins filters
    typed nodes edges⟩

/-- Whom a person knows over at most two steps, with the number of the steps. -/
def contacts : Query :=
  .mk
    { start := { aliasName := "p", kinds := ["person"] }
      traversals :=
        [{ Traversal.outwardFrom "p" "e" "knows" "f" "person" with
            walk := some
              { minDepth := 1, maxDepth := 2, cyclePolicy := .allow, depthAlias := some "steps" } }]
      projection := [⟨"id", .field (.ofColumn "p" "id")⟩, ⟨"known", .field (.ofColumn "f" "id")⟩] }

namespace contacts

def env : Setting where
  opts := {}
  graphId := "people"

/-- Two persons know each other. -/
def friends : Context Datum Statement :=
  graph "people" [("person", "ada"), ("person", "eve")] [⟨"1", "knows", ("person", "ada"), ("person", "eve")⟩,
      ⟨"2", "knows", ("person", "eve"), ("person", "ada")⟩]

/-- From a person to its friend and back again. -/
def roundTrip : Trail Datum where
  start := nodeRow "people" ("person", "ada")
  steps :=
    [(edgeRow "people" ⟨"1", "knows", ("person", "ada"), ("person", "eve")⟩, nodeRow "people" ("person", "eve")),
      (edgeRow "people" ⟨"2", "knows", ("person", "eve"), ("person", "ada")⟩, nodeRow "people" ("person", "ada"))]

/-- The walk that comes back to its first node has a row. -/
theorem roundTrip_enumerated :
    ∃ level plan, ((contacts.nested {}).compile env).result = .ok (level, plan) ∧
      (∃ result, level.Returns friends result) ∧
      ∀ result, level.Returns friends result →
        [("id", .text "ada"), ("known", .text "ada"), ("steps", .integer 2)] ∈ result := by
  have typed : friends.Typed := Datum.graph_typed _ _ _
  have nodes : friends.UniqueNodes := by
    unfold Context.UniqueNodes
    decide
  have edges : friends.UniqueEdges := by
    unfold Context.UniqueEdges
    decide
  have found : contacts.block.walk = .ok _ := rfl
  have compiled : ((contacts.nested {}).compileWalk env).result = .ok (_, _) := rfl
  obtain ⟨compile, early, placed, rest, atStart, lowered, late, enumerated⟩ :=
    walks_enumerated found rfl rfl compiled
  obtain ⟨trails, row, enumerates⟩ := enumerated friends typed nodes edges
  obtain rfl : [] = early := Except.ok.inj atStart
  obtain rfl : [] = placed := Except.ok.inj lowered
  obtain rfl : [] = rest := Except.ok.inj late
  have mem : roundTrip ∈ trails := by
    refine (enumerates.walks _).mpr ⟨by decide, ?_, by decide, by decide⟩
    simp only [roundTrip, Trail.Follows, Walk.Opens]
    decide
  have returns := enumerates.returns ⟨rfl, rfl, by decide, rfl⟩
  refine ⟨_, _, compile rfl, ⟨_, (returns _).mpr rfl⟩, fun result returned => ?_⟩
  rw [(returns result).mp returned]
  refine Multiset.mem_map.mpr ⟨roundTrip, Multiset.mem_filter.mpr ⟨mem, by simp⟩, ?_⟩
  have first : friends.db.field (row roundTrip) "p_id" = .text "ada" := enumerates.start roundTrip .id rfl
  have last : friends.db.field (row roundTrip) "f_id" = .text "ada" := enumerates.finish roundTrip .id rfl
  have depth : friends.db.field (row roundTrip ++ []) "depth" = .integer 2 := by
    rw [List.append_nil]
    exact enumerates.depth roundTrip
  calc
    _ = [("id", friends.db.field (row roundTrip) "p_id"),
          ("known", friends.db.field (row roundTrip) "f_id"),
          ("steps", friends.db.field (row roundTrip ++ []) "depth")] := rfl
    _ = _ := by rw [first, last, depth]

end contacts

end GraphSql
