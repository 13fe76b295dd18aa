import GraphSql.Proofs.Equivalence.Counts
import GraphSql.Proofs.Equivalence.SingleHopSelect

namespace GraphSql

open Condition List Traced Walk.Position

variable {holds : Statement → Prop} {ν : Type}

namespace Block

/-- The check of the visited path that a walk of one step makes, on the rows of a plain hop. -/
def pathCheck (block : Block Nested) (env : Setting) (walk : Walk) : Conditions :=
  if walk.walk.tracksPath then
    [.offPath (.pathStart (block.startKey env).id)
      (NodeKey.carried (.relation (env.rowSetName walk.hop.nodeAlias)) walk.hop.nodeAlias).id]
  else []

section Analysis

theorem depthRange_of_isSingleStep {spec : WalkSpec} (isStep : spec.isSingleStep = true) :
    spec.depthRange = .ok ⟨1, 1⟩ := by
  simp only [WalkSpec.isSingleStep, Bool.and_eq_true, beq_iff_eq] at isStep
  obtain ⟨⟨⟨least, greatest⟩, -⟩, -⟩ := isStep
  unfold WalkSpec.depthRange WalkSpec.greatestDepth
  rw [least, greatest]
  rfl

/-- A query that is compiled as a plain hop has one walk, of one step. -/
theorem isSingleHop_spec {σ : Type} {block : Block σ} (isSingleHop : block.isSingleHop = true) :
    ∃ walk : Walk, block.traversals = [walk.hop] ∧ walk.hop.walk = some walk.walk ∧
      block.walk = .ok walk ∧ walk.walk.isSingleStep = true ∧ walk.range = ⟨1, 1⟩ := by
  unfold Block.isSingleHop at isSingleHop
  split at isSingleHop
  · next hop single =>
    cases asked : hop.walk with
    | none => simp [asked] at isSingleHop
    | some spec =>
      have isStep : spec.isSingleStep = true := by simpa [asked] using isSingleHop
      refine ⟨⟨hop, spec, ⟨1, 1⟩⟩, single, asked, ?_, isStep, rfl⟩
      unfold Block.walk onlyWalk
      rw [single]
      simp only [asked, bind, Except.bind, depthRange_of_isSingleStep isStep]
      rfl
  · simp at isSingleHop

variable {block : Block Nested}

/-- Where the walk is analyzed, its query meets the conditions for a comparison with the plain hop. -/
theorem singleHop_of_analyzeWalk {opts : Options} {picks : Decisions} {plan : Plan}
    {walk : Walk} (traversals : block.traversals = [walk.hop])
    (asked : walk.hop.walk = some walk.walk) (isStep : walk.walk.isSingleStep = true)
    (range : walk.range = ⟨1, 1⟩)
    (analyzed : (block.analyzeWalk opts).result = .ok (picks, plan)) (names : block.Apart .ignored)
    (projection : block.projection ≠ []) (limit : block.limit = none) (offset : block.offset = none)
    (selected : ∀ selected ∈ block.selectedFields, ∀ column, selected.field.target = .ok (.column column) →
        column.existsOn (block.elementOf selected.field.aliasName) = true) :
    (block.withoutWalks.analyzeReferences opts.dialect).result = .ok none ∧
      picks = block.walkDecisions opts none ∧ block.SingleHop opts walk := by
  have silent : ∀ hop ∈ block.traversals, walkAliases hop = [] := by
    simp only [WalkSpec.isSingleStep, Bool.and_eq_true, Option.isNone_iff_eq_none] at isStep
    simp [traversals, walkAliases, asked, isStep.1.2, isStep.2]
  obtain ⟨references, made, optional, walks⟩ := oneWalk_of_analyzeWalk traversals asked analyzed
  have hopReferences : (block.withoutWalks.analyzeReferences opts.dialect).result = .ok none := by
    rw [block.analyzeReferences_withoutWalks silent, references]
  have hopBound := ((block.withoutWalks.analyzeReferences_ensures opts.dialect).of_ok hopReferences).1
  have hops : block.withoutWalks.OneHop (block.withoutWalks.chainDecisions opts none) walk.plainHop := by
    refine ⟨hopBound, chainDecisions_fit opts (by simp), ?_, rfl, ?_⟩
    · rw [withoutWalks, traversals]
      rfl
    · have mem : block.withoutWalks.projection.isEmpty = false := isEmpty_eq_false_iff.mpr projection
      simp [chainDecisions, isCollapsible, mem]
  exact ⟨hopReferences, made,
    { walks, names
      hops := hops.withoutCounts
      kinded := (block.analyzeReferences_kinded opts.dialect).of_ok references
      unsearched := (block.analyzeReferences_unsearched opts.dialect).of_ok references rfl
      isStep, range, optional, projection, limit, offset, selected }⟩

/-- The levels of a walk of one step and of its plain hop, with the same predicates. -/
def HopsAlike (block : Block Nested) (env : Setting) (walk : Walk) (walks hops : Level Statement) : Prop :=
  ∃ early placed ofWalk ofHop, walk.placed block env (block.walkDecisions env.opts none) = .ok placed ∧
    block.SelectsAlike env walk ofWalk ofHop ∧
    walks = walk.level block env (block.walkDecisions env.opts none) early placed ofWalk ∧
    hops = block.withoutWalks.hopLevel env (block.hopDecisions env.opts) walk.plainHop early placed ofHop

theorem SingleHop.levels_alike {env : Setting} {walk : Walk}
    (single : block.SingleHop env.opts walk) (found : block.walk = .ok walk) :
    Follows (block.HopsAlike env walk) (block.walkLevel env (block.walkDecisions env.opts none)).result
      (block.withoutWalks.chainLevel env (block.hopDecisions env.opts)).result := by
  have kinds : walk.hop.edgeKinds ≠ [] ∨ walk.hop.inverseEdgeKinds ≠ [] := by
    have some := single.kinded.hops walk.hop single.walks.mem
    rw [Traversal.allKinds, Ne, append_eq_nil_iff] at some
    exact not_and_or.mp some
  rw [Walk.result_walkLevel found kinds, single.hops.result_chainLevel rfl]
  simp only [loweredStart, loweredHop, lowerPlaced_hopDecisions]
  apply follows_bind_same
  intro early
  cases lowered : walk.placed block env (block.walkDecisions env.opts none) with
  | error error => trivial
  | ok placed =>
    have other : (block.lowerPlaced env.opts.dialect (block.walkDecisions env.opts none) walk.plainHop.scope
        (some walk.plainHop.nodeAlias)).result = .ok placed := lowered
    rw [other]
    cases selected : (walk.select block env (block.walkDecisions env.opts none)).result with
    | error error => trivial
    | ok ofWalk =>
      have present := single.existsOn_of_select.of_ok selected
      obtain ⟨ofHop, made, alike⟩ := (single.selects_alike present).exists_ok selected
      rw [made]
      exact (follows_ok _ _).mpr ⟨early, placed, ofWalk, ofHop, lowered, alike, rfl, rfl⟩

theorem compile_of_isSingleHop {env : Setting} (isSingleHop : block.isSingleHop = true)
    (references : (block.withoutWalks.analyzeReferences env.opts.dialect).result = .ok none)
    (nested : block.NestedEnsures holds) {level : Level Statement}
    (made : (block.withoutWalks.chainLevel env
      (block.withoutWalks.chainDecisions env.opts none)).result = .ok level) :
    ∃ plan, (block.compile env).result = .ok (level, plan) := by
  obtain ⟨plan, chain⟩ : ∃ plan, (block.withoutWalks.compileChain env).result = .ok (level, plan) := by
    refine ⟨block.withoutWalks.chainPlan block.withoutWalks.placements none
      (block.withoutWalks.chainDecisions env.opts none).counts, ?_⟩
    unfold compileChain
    simp only [result_bind, result_pure, analyzeChain_of_references references]
    change (block.withoutWalks.chainLevel env _).result >>= _ = _
    rw [made]
    rfl
  have nestedIn : ∀ query ∈ block.withoutWalks.nested, Ensures query.outcome.result holds := nested
  have sound := (compileChain_ensures nestedIn env).of_ok chain
  have checked : result (liftM (level.select.check plan)) = .ok () := sound.2
  refine ⟨plan, ?_⟩
  unfold compile compileLevel
  simp only [isSingleHop, if_true, result_bind, result_logged, chain]
  change result (liftM (level.select.check plan)) >>= _ = _
  rw [checked]
  rfl

/-- The statement of a walk of one step is that of its plain hop, or it is computed from counts. -/
theorem SingleHop.compiled {env : Setting} {walk : Walk}
    (single : block.SingleHop env.opts walk) (isSingleHop : block.isSingleHop = true)
    (references : (block.withoutWalks.analyzeReferences env.opts.dialect).result = .ok none)
    (nested : block.NestedEnsures holds) {hops : Level Statement}
    (made : (block.withoutWalks.chainLevel env (block.hopDecisions env.opts)).result = .ok hops) :
    ∃ level plan, (block.compile env).result = .ok (level, plan) ∧
      ((block.withoutWalks.chainDecisions env.opts none).counts = none → level = hops) ∧
      ∀ counts, (block.withoutWalks.chainDecisions env.opts none).counts = some counts → ∃ hop,
          block.withoutWalks.Counted (block.withoutWalks.chainDecisions env.opts none) hop counts ∧
          block.withoutWalks.LevelsAgree env
            (block.withoutWalks.chainDecisions env.opts none) hop counts level hops := by
  cases found : (block.withoutWalks.chainDecisions env.opts none).counts with
  | none =>
    have same : block.hopDecisions env.opts = block.withoutWalks.chainDecisions env.opts none := by
      rw [hopDecisions, Decisions.withoutCounts, ← found]
    rw [same] at made
    obtain ⟨plan, compiled⟩ := compile_of_isSingleHop isSingleHop references nested made
    exact ⟨hops, plan, compiled, fun _ => rfl, by simp⟩
  | some counts =>
    obtain ⟨hop, counted⟩ := counted_of_analyzeChain (analyzeChain_of_references references) found
    obtain ⟨level, ofCounts, agree⟩ := (counted.chainLevel_agree single.limit single.offset).exists_ok_first made
    obtain ⟨plan, compiled⟩ := compile_of_isSingleHop isSingleHop references nested ofCounts
    refine ⟨level, plan, compiled, by simp, ?_⟩
    rintro _ ⟨⟩
    exact ⟨hop, counted, agree⟩

end Analysis

section Meaning

variable [DecidableEq ν] {world : Context ν Statement} {block : Block Nested} {env : Setting}
variable {walk : Walk} {early placed : Conditions}

section

variable (block : Block Nested) (env : Setting)

/-- Each start node with the edges and nodes that the hop connects it with. -/
def connected (walk : Walk) (early placed : Conditions)
    (world : Context ν Statement) : Multiset (Record ν × Record ν × Record ν) :=
  (block.starts env (block.walkDecisions env.opts none) early world).bind fun node =>
      (block.connections env (block.walkDecisions env.opts none) walk.hop placed world
        (world.db.keyOf node)).map (node, ·)

/-- The rows in reach of the plain hop, for a start node and a connection. -/
def hopFrame (walk : Walk) (db : Engine ν) (member : Record ν × Record ν × Record ν) : Frame ν :=
  [(.relation (env.rowSetName block.start.aliasName), block.startRow (block.hopDecisions env.opts) db member.1),
    (.relation (env.rowSetName walk.hop.nodeAlias),
      hopRow (block.hopDecisions env.opts) walk.plainHop db (db.keyOf member.1) member.2)]

/-- The row in reach of the walk, for a start node and a connection. -/
def stepFrame (walk : Walk) (db : Engine ν) (member : Record ν × Record ν × Record ν) : Frame ν :=
  walk.frame block env (block.walkDecisions env.opts none) db ((ofStart db member.1).extend db member.2.2)

end

namespace SingleHop

variable (single : block.SingleHop env.opts walk)

include single

theorem walks_eq : ((walk.walks block env (block.walkDecisions env.opts none) early placed
        world).filter fun index => walk.range.least.toNat ≤ index.depth) =
      ((block.connected env walk early placed world).filter fun mem =>
        walk.Admits world.db (.ofStart world.db mem.1) mem.2.2).map
          fun mem => (ofStart world.db mem.1).extend world.db mem.2.2 := by
  have least : walk.range.least.toNat = 1 := by rw [single.range]; rfl
  have greatest : walk.range.greatest.toNat = 1 := by rw [single.range]; rfl
  have rounds (positions : Multiset (Walk.Position ν)) :
      walk.walksWithin block env (block.walkDecisions env.opts none) placed world 2 positions =
        positions + walk.advance block env (block.walkDecisions env.opts none) placed world positions := by
    simp [Walk.walksWithin]
  have short : ((block.starts env (block.walkDecisions env.opts none) early
      world).map (ofStart world.db)).filter (1 ≤ ·.depth) = 0 := by
    refine Multiset.filter_eq_nil.mpr fun index mem => ?_
    obtain ⟨node, -, rfl⟩ := Multiset.mem_map.mp mem
    simp [ofStart]
  have deep (positions : Multiset (Walk.Position ν)) :
      (walk.advance block env (block.walkDecisions env.opts none) placed world positions).filter (1 ≤ ·.depth) =
        walk.advance block env (block.walkDecisions env.opts none) placed world
          positions := by
    refine Multiset.filter_eq_self.mpr fun index mem => ?_
    obtain ⟨before, -, node, -, -, rfl⟩ := Walk.of_mem_advance mem
    exact Nat.le_add_left 1 before.depth
  rw [Walk.walks, least, greatest, rounds, Multiset.filter_add, short, deep, zero_add, Walk.advance,
    Multiset.bind_map, connected, Multiset.filter_bind, Multiset.map_bind]
  refine Multiset.bind_congr fun node _ => ?_
  rw [Multiset.filter_map, Multiset.map_map]
  rfl

theorem rejoined_eq : block.withoutWalks.rejoined env (block.hopDecisions env.opts) walk.plainHop early placed world =
      (block.connected env walk early placed world).map (block.hopFrame env walk world.db) := by
  have optional : walk.plainHop.optional = false := single.optional
  rw [rejoined, connected, Multiset.map_bind]
  refine Multiset.bind_congr fun node _ => ?_
  simp only [optional, rejoin, Bool.false_eq_true, if_false, reduceCtorEq, false_and, Multiset.map_map]
  rfl

section

variable {aliasName : String} (isEnd : block.IsEnd walk.hop aliasName)

include isEnd

omit [DecidableEq ν] in
theorem lookup_hopFrame (db : Engine ν) (member : Record ν × Record ν × Record ν) :
    (block.hopFrame env walk db member).lookup (.relation (env.rowSetName aliasName)) =
      some (if aliasName = block.start.aliasName then
        block.startRow (block.hopDecisions env.opts) db member.1
      else
        hopRow (block.hopDecisions env.opts) walk.plainHop db (db.keyOf member.1) member.2) := by
  have apart : walk.hop.nodeAlias ≠ block.start.aliasName := (single.walks.bound.start_ne_node single.walks.mem).symm
  have names : (Row.relation (env.rowSetName walk.hop.nodeAlias) ==
      Row.relation (env.rowSetName block.start.aliasName)) = false :=
    beq_false_of_ne fun same => apart (rowSetName_injective _ (Row.relation.inj same))
  rcases isEnd with rfl | rfl
  · rw [if_pos rfl]
    exact lookup_cons_self
  · rw [if_neg apart, hopFrame, lookup_cons, names]
    exact lookup_cons_self

omit [DecidableEq ν] in
theorem read_hopFrame {column : Column} (present : column.existsOn .node = true)
    (kept : column ∈ (block.hopDecisions env.opts).carried aliasName) (db : Engine ν)
    (member : Record ν × Record ν × Record ν) :
    db.read (block.hopFrame env walk db member)
        (.column (.relation (env.rowSetName aliasName)) (carriedName aliasName column)) =
      db.field (if aliasName = block.start.aliasName then member.1 else member.2.2) column.name := by
  rw [Engine.read, single.lookup_hopFrame isEnd]
  split
  · next start =>
    subst start
    exact Engine.field_carry_self kept
  · next other =>
    obtain rfl := isEnd.resolve_left other
    exact single.hops.field_hopRow (block.apart_withoutWalks.mpr single.names) db _ member.2 kept present

omit [DecidableEq ν] in
theorem read_stepFrame {column : Column} (present : column.existsOn .node = true)
    (db : Engine ν) (member : Record ν × Record ν × Record ν) :
    db.read (block.stepFrame env walk db member)
        (.column (.relation (Walk.rowSetName env)) (carriedName aliasName column)) =
      db.field (if aliasName = block.start.aliasName then member.1 else member.2.2) column.name := by
  have found : (block.stepFrame env walk db member).lookup
      (.relation (Walk.rowSetName env)) = some _ := lookup_cons_self
  rw [Engine.read, found]
  split
  · next start =>
    subst start
    exact single.walks.field_start db _ present
  · next other =>
    obtain rfl := isEnd.resolve_left other
    exact single.walks.field_current db _ present

end

omit [DecidableEq ν] in
theorem framesAlike (members : Multiset (Record ν × Record ν × Record ν))
    {before after : Context ν Statement} (db : before.db = world.db)
    (otherEngine : after.db = world.db) (answers : after.answers = before.answers) :
    FramesAlike (Walk.merge env) (block.EndColumn env walk.hop) before after members
      (block.hopFrame env walk world.db) (block.stepFrame env walk world.db) where
  db := otherEngine.trans db.symm
  answers := answers
  read := by
    rintro mem - reference ⟨aliasName, column, isEnd, present, kept, rfl⟩
    rw [db, single.read_hopFrame isEnd present kept]
    exact (single.read_stepFrame isEnd present world.db mem).symm

/-- The check of the visited path, made on the rows of a plain hop, is that of the walk. -/
theorem holds_pathCheck (member : Record ν × Record ν × Record ν) :
    world.Holds (block.hopFrame env walk world.db member) (block.pathCheck env walk) ↔
      walk.Admits world.db (.ofStart world.db member.1) member.2.2 := by
  have apart : walk.hop.nodeAlias ≠ block.start.aliasName := (single.walks.bound.start_ne_node single.walks.mem).symm
  have shallow : (ofStart world.db member.1).depth < walk.range.greatest.toNat := by
    rw [single.range]
    exact Nat.zero_lt_one
  have startId := single.read_hopFrame (.inl rfl) rfl (single.hops.fit.id _) world.db member
  have nodeId := single.read_hopFrame (.inr rfl) rfl (single.hops.fit.id _) world.db member
  rw [if_pos rfl] at startId
  rw [if_neg apart] at nodeId
  rw [Walk.Admits, pathCheck]
  simp only [shallow, true_and]
  split
  · next tracks =>
    have truth : (offPath (σ := Statement) (.pathStart (block.startKey env).id)
        (NodeKey.carried (.relation (env.rowSetName walk.hop.nodeAlias))
          walk.hop.nodeAlias).id).truth world 0 (block.hopFrame env walk world.db member) =
        world.db.offPath (world.db.pathStart (world.db.keyOf member.1).1) (world.db.keyOf member.2.2).1 := by
      rw [Condition.truth, Term.eval]
      exact congrArg₂ (fun start node => world.db.offPath (world.db.pathStart start) node) startId nodeId
    simp [truth, tracks, ofStart]
  · next free => simp [free]

variable {ofWalk ofHop : Select Statement}

theorem holds_iff (alike : block.SelectsAlike env walk ofWalk ofHop) (member : Record ν × Record ν × Record ν) :
    world.Holds (block.hopFrame env walk world.db member) ofHop.conditions ↔
      world.Holds (block.stepFrame env walk world.db member) (renameAll (Walk.merge env) ofHop.conditions) := by
  rw [renameAll_eq_map]
  refine Context.holds_rename fun condition mem reference read => ?_
  have inConditions : reference ∈ referencesOf ofHop.conditions := by
    rw [referencesOf_eq_flatMap]
    exact mem_flatMap.mpr ⟨condition, mem, read⟩
  have frames : FramesAlike _ _ world world {member} _ _ := single.framesAlike {member} rfl rfl rfl
  exact frames.read member (Multiset.mem_singleton_self member) reference
    (alike.conditionsRead reference inConditions)

theorem frames_hop (typed : world.Typed) (unique : world.UniqueNodes) {select : Select Statement}
    (source : select.source = .relation (env.rowSetName block.start.aliasName) none)
    (joins : select.joins = block.withoutWalks.traversals.map (rowSetJoin env (block.hopDecisions env.opts))) :
    select.frames (block.withoutWalks.hopContext env (block.hopDecisions env.opts) walk.plainHop early placed world) =
      ((block.connected env walk early placed world).filter fun mem =>
        world.Holds (block.hopFrame env walk world.db mem) select.conditions).map
          (block.hopFrame env walk world.db) := by
  rw [single.hops.frames_chainSelect typed unique source joins rfl, single.rejoined_eq, Multiset.filter_map]
  rfl

theorem frames_walk (alike : block.SelectsAlike env walk ofWalk ofHop) :
    ofWalk.frames (walk.walkContext block env (block.walkDecisions env.opts none) early placed world) =
      ((block.connected env walk early placed world).filter fun mem =>
        world.Holds (block.hopFrame env walk world.db mem)
          (ofHop.conditions ++ block.pathCheck env walk)).map (block.stepFrame env walk world.db) := by
  rw [OneWalk.frames_select alike.walkSource alike.walkJoins alike.conditions, single.walks_eq,
    Multiset.map_map, Multiset.filter_map, Multiset.filter_filter]
  refine congrArg _ (Multiset.filter_congr fun mem _ => ?_)
  rw [Context.holds_append, single.holds_iff alike, single.holds_pathCheck]
  rfl

/-- A walk of one step returns what the plain hop with the check of the visited path returns. -/
theorem returns_iff (typed : world.Typed) (unique : world.UniqueNodes) (reads : Condition.ReadElements placed)
    (alike : block.SelectsAlike env walk ofWalk ofHop) {result : Bag ν} :
    (walk.level block env (block.walkDecisions env.opts none) early placed ofWalk).Returns world result ↔
      ((block.withoutWalks.hopLevel env (block.hopDecisions env.opts) walk.plainHop
        early placed ofHop).restrict (block.pathCheck env walk)).Returns world result := by
  have corresponds := alike.corresponds
  have restricted : ({ ofHop with
      conditions := ofHop.conditions ++ block.pathCheck env walk } :
        Select Statement).Corresponds (Walk.merge env) (block.EndColumn env walk.hop) ofWalk :=
    ⟨corresponds.columns, corresponds.groupBy, corresponds.having, corresponds.columnsRead,
      corresponds.groupByRead, corresponds.havingReads⟩
  have walks : (walk.level block env (block.walkDecisions env.opts none) early placed
      ofWalk).Returns world result ↔ ofWalk.Returns (walk.walkContext block env (block.walkDecisions env.opts none)
          early placed world) result :=
    Level.returns_iff (single.walks.prepares_level typed reads early ofWalk)
  have hops : ((block.withoutWalks.hopLevel env (block.hopDecisions env.opts) walk.plainHop
      early placed ofHop).restrict (block.pathCheck env walk)).Returns world result ↔
        ({ ofHop with conditions := ofHop.conditions ++ block.pathCheck env walk } :
          Select Statement).Returns (block.withoutWalks.hopContext env
            (block.hopDecisions env.opts) walk.plainHop early placed world) result :=
    Level.returns_iff (single.hops.prepares_hopLevel typed reads _)
  have frames : FramesAlike (Walk.merge env) (block.EndColumn env walk.hop)
      (block.withoutWalks.hopContext env (block.hopDecisions env.opts) walk.plainHop early placed world)
      (walk.walkContext block env (block.walkDecisions env.opts none) early placed world)
      ((block.connected env walk early placed world).filter fun mem =>
        world.Holds (block.hopFrame env walk world.db mem) (ofHop.conditions ++ block.pathCheck env walk))
      (block.hopFrame env walk world.db) (block.stepFrame env walk world.db) :=
    single.framesAlike _ rfl rfl rfl
  rw [walks, hops]
  exact (restricted.returns_iff frames
    (single.frames_hop typed unique alike.hopSource alike.hopJoins) (single.frames_walk alike)
    alike.hopBounds alike.walkBounds).symm

theorem agree (typed : world.Typed) (unique : world.UniqueNodes)
    (nested : block.NestedEnsures holds) {walks hops : Level Statement}
    (alike : block.HopsAlike env walk walks hops) {result : Bag ν} :
    walks.Returns world result ↔ (hops.restrict (block.pathCheck env walk)).Returns world result := by
  obtain ⟨early, placed, ofWalk, ofHop, lowered, selects, rfl, rfl⟩ := alike
  have hopLowered : (block.withoutWalks.lowerPlaced env.opts.dialect
      (block.hopDecisions env.opts) walk.plainHop.scope (some walk.plainHop.nodeAlias)).result = .ok placed := by
    rw [lowerPlaced_hopDecisions]
    exact lowered
  have nestedIn : ∀ query ∈ block.withoutWalks.nested, Ensures query.outcome.result holds := nested
  have reads := single.hops.placed_ofElement nestedIn hopLowered
  exact single.returns_iff typed unique reads selects

end SingleHop

end Meaning

end Block

/-- A walk of one step returns what the plain hop returns, restricted to nodes that are off the visited
path. Hence both return the same rows if no row in reach leads back to the id of its start. What the
query is compiled to is the plain hop, or the counts that it may be computed from. No two columns, and
no two row sets, may differ in letter case only, since they are named without quotes. -/
theorem singleHop_agrees {query : Query} {opts : Options} {env : Setting} {walk : Walk}
    {walks : Level Statement} {walkPlan : Plan} (isSingleHop : query.block.isSingleHop = true)
    (found : query.block.walk = .ok walk) (projection : query.block.projection ≠ [])
    (limit : query.block.limit = none) (offset : query.block.offset = none)
    (names : (query.nested opts).Apart .ignored)
    (selected : ∀ selected ∈ query.block.selectedFields, ∀ column,
      selected.field.target = .ok (.column column) →
        column.existsOn (query.block.elementOf selected.field.aliasName) = true)
    (compiled : ((query.nested opts).compileWalk env).result = .ok (walks, walkPlan)) :
    ∃ level plan hops,
      ((query.nested opts).compile env).result = .ok (level, plan) ∧
      ((query.nested opts).withoutWalks.chainLevel env
        ((query.nested opts).hopDecisions env.opts)).result = .ok hops ∧
      (((query.nested opts).withoutWalks.chainDecisions env.opts none).counts = none →
        level = hops) ∧
      ∀ {ν : Type} [DecidableEq ν] (world : Context ν Statement), world.Typed →
        world.UniqueNodes →
          (∀ result, walks.Returns world result ↔
            (hops.restrict ((query.nested opts).pathCheck env walk)).Returns world result) ∧
          ((∀ frames, hops.Reaches world frames → ∀ frame ∈ frames,
              world.Holds frame ((query.nested opts).pathCheck env walk)) →
            ∀ result, walks.Returns world result ↔ hops.Returns world result) ∧
          ∀ counts,
            ((query.nested opts).withoutWalks.chainDecisions env.opts none).counts =
              some counts →
            Text.sameUnquoted counts.aliasName query.block.start.aliasName = false →
              ((∀ result, level.Returns world result ↔ hops.Returns world result) ↔
                (query.nested opts).withoutWalks.StartsApart env world hops) := by
  obtain ⟨only, traversals, asked, walked, isStep, range⟩ := Block.isSingleHop_spec isSingleHop
  obtain rfl : only = walk := Except.ok.inj (walked.symm.trans found)
  obtain ⟨picks, analyzed, made⟩ := Block.analyzeWalk_of_compileWalk compiled
  obtain ⟨references, rfl, single⟩ := Block.singleHop_of_analyzeWalk traversals asked isStep range
    analyzed names projection limit offset selected
  obtain ⟨hops, hopsMade, alike⟩ := (single.levels_alike walked).exists_ok made
  have nested := query.nested_ensures opts
  obtain ⟨level, plan, compiledTo, uncounted, counted⟩ := single.compiled isSingleHop references nested hopsMade
  refine ⟨level, plan, hops, compiledTo, hopsMade, uncounted, fun world typed unique => ?_⟩
  have checked (result : Bag _) : walks.Returns world result ↔
      (hops.restrict ((query.nested opts).pathCheck env only)).Returns world result :=
    single.agree typed unique nested alike
  refine ⟨checked, fun met result => (checked result).trans (Level.returns_restrict met), ?_⟩
  intro counts some apart
  have different : query.block.start.aliasName ≠ counts.aliasName :=
    fun same => by simp [same, Text.sameUnquoted] at apart
  obtain ⟨hop, counts, agree⟩ := counted counts some
  exact counts.agree_iff_startsApart typed unique ((query.nested opts).apart_withoutWalks.mpr names) different nested agree

/-- Each person with the persons that it knows, asked for as walks of one step. -/
def neighbours : Query :=
  .mk
    { start := { aliasName := "p", kinds := ["person"] }
      traversals :=
        [{ Traversal.outwardFrom "p" "e" "knows" "f" "person" with
            walk := some { minDepth := 1, maxDepth := 1 } }]
      projection := [⟨"id", .field (.ofColumn "p" "id")⟩, ⟨"known", .field (.ofColumn "f" "id")⟩] }

namespace neighbours

def env : Setting where
  opts := {}
  graphId := "people"

def walk : Walk where
  hop :=
    { Traversal.outwardFrom "p" "e" "knows" "f" "person" with
      walk := some { minDepth := 1, maxDepth := 1 } }
  walk := { minDepth := 1, maxDepth := 1 }
  range := ⟨1, 1⟩

/-- One person knows another one. -/
def couple : Context Datum Statement :=
  Datum.graph "people" [("person", "ada"), ("person", "eve")] [⟨"1", "knows", ("person", "ada"), ("person", "eve")⟩]

/-- A person knows itself. -/
def loner : Context Datum Statement :=
  Datum.graph "people" [("person", "ada")] [⟨"1", "knows", ("person", "ada"), ("person", "ada")⟩]

/-- The columns of the plain hop. -/
def hopColumns : List OutputColumn :=
  [.quoted (.column (.relation "cte_p") "p_id") "id", .quoted (.column (.relation "cte_f") "f_id") "known"]

def hops : Level Statement :=
  (neighbours.nested {}).withoutWalks.hopLevel env ((neighbours.nested {}).hopDecisions env.opts) walk.plainHop [] []
    { columns := hopColumns
      source := .relation "cte_p" none
      joins := (neighbours.nested {}).withoutWalks.traversals.map
        (Block.rowSetJoin env ((neighbours.nested {}).hopDecisions env.opts)) }

theorem result_hops : ((neighbours.nested {}).withoutWalks.chainLevel env
      ((neighbours.nested {}).hopDecisions env.opts)).result = .ok hops := rfl

theorem names : (neighbours.nested {}).Apart .ignored := Block.apart_of_noBar (by decide) (by decide)

theorem single : (neighbours.nested {}).SingleHop env.opts walk := by
  have analyzed : ((neighbours.nested {}).analyzeWalk env.opts).result =
      .ok ((neighbours.nested {}).walkDecisions env.opts none, _) := rfl
  have mem : (neighbours.nested {}).projection ≠ [] := cons_ne_nil _ _
  exact (Block.singleHop_of_analyzeWalk rfl rfl rfl rfl analyzed names mem rfl rfl (by
    intro selected member
    cases member)).2.2

/-- What the plain hop returns, restricted to the rows that meet further conditions. -/
theorem returns_restrict {world : Context Datum Statement} (typed : world.Typed)
    (unique : world.UniqueNodes) (conditions : Conditions) {result : Bag Datum} :
    (hops.restrict conditions).Returns world result ↔
      result = (((neighbours.nested {}).connected env walk [] [] world).filter fun mem =>
          world.Holds ((neighbours.nested {}).hopFrame env walk world.db mem) conditions).map fun mem =>
        hopColumns.flatMap (OutputColumn.record world.db 0
          ((neighbours.nested {}).hopFrame env walk world.db mem)) := by
  have returns : (hops.restrict conditions).Returns world result ↔ (hops.restrict conditions).select.Returns
        ((neighbours.nested {}).withoutWalks.hopContext env
          ((neighbours.nested {}).hopDecisions env.opts) walk.plainHop [] [] world) result :=
    Level.returns_iff (single.hops.prepares_hopLevel typed (by simp) _)
  rw [returns, Select.returns_iff_frames rfl rfl, single.frames_hop typed unique rfl rfl, Multiset.map_map]
  rfl

theorem couple_agrees :
    ∃ walks level plan,
      ((neighbours.nested {}).compileWalk env).result = .ok (walks, plan) ∧
        (∃ plan, ((neighbours.nested {}).compile env).result = .ok (level, plan)) ∧
        (∀ result, walks.Returns couple result ↔ level.Returns couple result) ∧
        walks.Returns couple {[("id", .text "ada"), ("known", .text "eve")]} := by
  have typed : couple.Typed := Datum.graph_typed _ _ _
  have unique : couple.UniqueNodes := by
    unfold Context.UniqueNodes
    decide
  have mem : neighbours.block.projection ≠ [] := List.cons_ne_nil _ _
  have compiledWalk : ((neighbours.nested {}).compileWalk env).result = .ok (_, _) := rfl
  have found : neighbours.block.walk = .ok walk := rfl
  obtain ⟨level, plan, made, compiled, hopsMade, uncounted, agrees⟩ :=
    singleHop_agrees rfl found mem rfl rfl names (by
      intro selected member
      cases member) compiledWalk
  obtain rfl : level = made := uncounted rfl
  obtain rfl : level = hops := Except.ok.inj (hopsMade.symm.trans result_hops)
  obtain ⟨-, agree, -⟩ := agrees couple typed unique
  have off : ∀ frames, hops.Reaches couple frames → ∀ frame ∈ frames,
      couple.Holds frame ((neighbours.nested {}).pathCheck env walk) := by
    intro frames reaches
    rw [Level.reaches_iff (single.hops.prepares_hopLevel typed (by simp) _)] at reaches
    rw [reaches, single.frames_hop typed unique rfl rfl]
    decide
  have same := agree off
  refine ⟨_, hops, _, rfl, ⟨plan, compiled⟩, same, (same _).mpr ?_⟩
  exact (returns_restrict typed unique []).mpr (by decide)

/-- The plain hop follows the edge from a person to itself, and the walk does not. -/
theorem loner_disagrees :
    loner.Typed ∧ loner.UniqueNodes ∧
      ((loner.tables .edges).map fun edge =>
        (loner.db.field edge "graph_id", loner.db.field edge "id")).Nodup ∧
      ∃ walks level,
        (∃ plan, ((neighbours.nested {}).compileWalk env).result = .ok (walks, plan)) ∧
          (∃ plan, ((neighbours.nested {}).compile env).result = .ok (level, plan)) ∧
          level.Returns loner {[("id", .text "ada"), ("known", .text "ada")]} ∧
          ¬ walks.Returns loner {[("id", .text "ada"), ("known", .text "ada")]} := by
  have typed : loner.Typed := Datum.graph_typed _ _ _
  have unique : loner.UniqueNodes := by
    unfold Context.UniqueNodes
    decide
  have walked : (neighbours.nested {}).walk = .ok walk := rfl
  obtain ⟨made, hopsMade, alike⟩ := (single.levels_alike walked).exists_ok rfl
  obtain rfl : made = hops := Except.ok.inj (hopsMade.symm.trans result_hops)
  refine ⟨typed, unique, by decide, _, hops, ⟨_, rfl⟩, ⟨_, rfl⟩, ?_, ?_⟩
  · exact (returns_restrict typed unique []).mpr (by decide)
  · rw [single.agree typed unique (neighbours.nested_ensures {}) alike, returns_restrict typed unique]
    decide

end neighbours

end GraphSql
