import GraphSql.Proofs.Compounds.Leaf
import GraphSql.Proofs.Equivalence.WalkRows
import GraphSql.Proofs.Similarity

namespace GraphSql

open List Traced

/-- The predicates that an operator applies. -/
def PlanOperator.predicates : PlanOperator → Nat
  | .filter _ predicates => predicates
  | _ => 0

mutual

/-- The predicates that all filters of a plan apply together. -/
def Plan.filterCount : Plan → Nat
  | .node op inputs => op.predicates + Plan.filterCounts inputs

def Plan.filterCounts : List Plan → Nat
  | [] => 0
  | input :: rest => input.filterCount + Plan.filterCounts rest

end

@[simp] theorem Plan.filterCount_under (op : PlanOperator) (input : Plan) :
    (input.under op).filterCount = op.predicates + input.filterCount := by
  simp [Plan.under, filterCount, filterCounts]

/-- A part of a statement that filters are evaluated in: the owner of what they read there, the scope
that they are lowered in, and the aliases that it has. -/
structure Seat where
  owner : Option String
  scope : Scope
  visible : List String

def Traversal.seat (hop : Traversal) : Seat := ⟨some hop.nodeAlias, hop.scope, [hop.edgeAlias, hop.nodeAlias]⟩

theorem Predicate.lowerAll_forall₂ (dialect : Dialect) (scope : Scope) (predicates : List (Predicate Nested)) :
    Returns (lowerAll dialect scope predicates).result
      (Forall₂ (fun predicate condition => (predicate.lower dialect scope).result = .ok condition) predicates) := by
  induction predicates with
  | nil => simp [lowerAll]
  | cons predicate rest ih =>
    simp only [lowerAll, result_bind, result_pure, returns_bind]
    cases lowered : (predicate.lower dialect scope).result with
    | error error => trivial
    | ok condition => exact ih.imp fun _ others => .cons lowered others

namespace Block

section

variable {σ : Type} (block : Block σ)

def startSeat : Seat := ⟨some block.start.aliasName, block.startScope, [block.start.aliasName]⟩

/-- The start, each hop, and the final SELECT. -/
def seats (final : Seat) : List Seat := block.startSeat :: block.traversals.map Traversal.seat ++ [final]

/-- The predicates that are evaluated in one part of a statement. -/
def seated (seat : Seat) : List (Predicate σ) := block.placedAt block.placements seat.owner

end

section Plans

variable {σ : Type} (block : Block σ)

@[simp] theorem filterCount_filtered (aliasName : String) (predicates : Nat) (input : Plan) :
    (filtered aliasName predicates input).filterCount = predicates + input.filterCount := by
  unfold filtered
  split
  · next none => simp [none]
  · simp [PlanOperator.predicates]

@[simp] theorem filterCount_finishPlan (finalPredicates : Nat) (aggregates hasVector : Bool)
    (input : Plan) : (block.finishPlan finalPredicates aggregates hasVector input).filterCount =
      finalPredicates + input.filterCount := by
  unfold finishPlan
  dsimp only
  split_ifs <;> simp [PlanOperator.predicates]

@[simp] theorem filterCount_scanPlan (placements : List (Option String)) (aliasName : String)
    (source : Element) : (block.scanPlan placements aliasName source).filterCount =
      (block.placedAt placements (some aliasName)).length := by
  simp [scanPlan, Plan.filterCount, Plan.filterCounts, PlanOperator.predicates]

theorem filterCount_joined (placements : List (Option String)) (counts : Option Counts)
    (hops : List Traversal) (input : Plan) :
    (hops.foldl (block.joinPlan placements counts) input).filterCount = input.filterCount +
      (hops.flatMap fun hop => block.placedAt placements (some hop.nodeAlias)).length := by
  induction hops generalizing input with
  | nil => rfl
  | cons hop rest ih =>
    rw [foldl_cons, ih]
    simp [joinPlan, Plan.filterCount, Plan.filterCounts, PlanOperator.predicates, Nat.add_assoc]

end Plans

section Partition

variable {σ α : Type} {block : Block σ}

/-- Values are found once under each key that one of them has. -/
theorem perm_flatMap_filter {keys : List (Option String)} (distinct : keys.Nodup)
    {key : α → Option String} {values : List α} (covered : ∀ value ∈ values, key value ∈ keys) :
    (keys.flatMap fun other => values.filter (key · = other)).Perm values := by
  induction keys generalizing values with
  | nil => simp [eq_nil_iff_forall_not_mem.mpr fun value member => by simpa using covered value member]
  | cons first rest ih =>
    obtain ⟨fresh, distinct⟩ := nodup_cons.mp distinct
    have others : ∀ value ∈ values.filter (fun value => !decide (key value = first)), key value ∈ rest := by
      intro value member
      obtain ⟨mem, different⟩ := mem_filter.mp member
      exact (mem_cons.mp (covered value mem)).resolve_left (by simpa using different)
    have same : (rest.flatMap fun other => values.filter (key · = other)) = rest.flatMap fun other =>
          (values.filter fun value => !decide (key value = first)).filter (key · = other) := by
      refine flatMap_congr fun other mem => ?_
      rw [filter_filter]
      refine filter_congr fun value _ => ?_
      have apart : other ≠ first := fun same => fresh (same ▸ mem)
      by_cases here : key value = other <;> simp [here, apart]
    rw [flatMap_cons, same]
    exact ((ih distinct others).append_left _).trans (filter_append_perm _ _)

theorem placement_mem (block : Block σ) (filter : Filter σ) {final : Seat} (ownerless : final.owner = none) :
    block.placement filter ∈ (block.seats final).map Seat.owner := by
  have owner : ∀ aliasName, block.ownerOf aliasName ∈ (block.seats final).map Seat.owner := by
    intro aliasName
    cases block.place aliasName with
    | start _ owner => simp [owner, seats, startSeat]
    | node hop mem _ owner | edge hop mem _ owner =>
      simp only [owner, seats, map_append, map_cons, map_map, mem_append, mem_cons, mem_map]
      exact .inl (.inr ⟨hop, mem, rfl⟩)
    | unbound _ _ owner => simp [owner, seats, ownerless]
  unfold placement
  dsimp only
  split
  · exact owner _
  · simp [seats, ownerless]

theorem Bound.nodup_owners (bound : block.Bound) {final : Seat} (ownerless : final.owner = none) :
    ((block.seats final).map Seat.owner).Nodup := by
  have nodes : (block.start.aliasName :: block.traversals.map Traversal.nodeAlias).Nodup := by
    refine bound.nodup_aliases.sublist (List.Sublist.cons_cons _ ?_)
    rw [map_eq_flatMap]
    exact List.Sublist.flatMap_right _ fun hop _ => .cons _ (.refl _)
  have owners : (block.seats final).map Seat.owner =
      (block.start.aliasName :: block.traversals.map Traversal.nodeAlias).map some ++ [none] := by
    simp [seats, startSeat, ownerless, Traversal.seat, Function.comp_def]
  rw [owners]
  exact (nodes.map fun _ _ => Option.some_inj.mp).append (nodup_singleton _) (by simp)

/-- Every filter is evaluated in exactly one part of a statement. -/
theorem Bound.perm_seated (bound : block.Bound) {final : Seat} (ownerless : final.owner = none) :
    ((block.seats final).flatMap block.seated).Perm (block.filters.map Filter.predicate) := by
  have covered : ∀ filter ∈ block.filters, block.placement filter ∈ (block.seats final).map Seat.owner :=
    fun filter _ => block.placement_mem filter ownerless
  have gathered : (block.seats final).flatMap block.seated = (((block.seats final).map Seat.owner).flatMap
      fun other => block.filters.filter (block.placement · = other)).map Filter.predicate := by
    rw [map_flatMap, flatMap_map]
    exact flatMap_congr fun seat _ => placedAt_placements _
  rw [gathered]
  exact (perm_flatMap_filter (bound.nodup_owners ownerless) covered).map _

end Partition

section Visible

variable {σ : Type} {block : Block σ}

/-- Whatever is read in one part of a statement, its scope has. -/
theorem Bound.visible (bound : block.Bound) (resolved : ∀ filter ∈ block.filters, block.Resolved filter)
    {final : Seat} (carried : block.seated final = [] ∨ block.aliases ⊆ final.visible) :
    ∀ seat ∈ block.seats final, ∀ predicate ∈ block.seated seat, ∀ field ∈ predicate.fields,
      field.aliasName ∈ seat.visible := by
  intro seat mem predicate placed field member
  obtain ⟨filter, inFilters, rfl, placement⟩ := placedAt_spec placed
  simp only [seats, mem_append, mem_cons, mem_map, not_mem_nil, or_false] at mem
  rcases mem with (rfl | ⟨hop, inHops, rfl⟩) | rfl
  · simp [startSeat, bound.eq_start (owner_of_placement placement field member)]
  · simpa [Traversal.seat] using bound.eq_edge_or_node inHops (owner_of_placement placement field member)
  · obtain ⟨binding, found⟩ := Option.ne_none_iff_exists'.mp ((resolved filter inFilters).fields field member)
    rcases carried with none | all
    · simp [none] at placed
    · exact all (mem_aliases_of_binding? found)

end Visible

section Statement

variable (block : Block Nested) (env : Setting) (picks : Decisions)

/-- What the predicates of one part of a statement become. -/
def conjuncts (seat : Seat) : Conditions :=
  (Predicate.lowerAll env.opts.dialect seat.scope (block.seated seat)).result.toOption.getD []

/-- Each predicate of one part of a statement becomes one condition. -/
def Lowers (seat : Seat) : Prop :=
  Forall₂ (fun predicate condition => (predicate.lower env.opts.dialect seat.scope).result = .ok condition)
    (block.seated seat) (block.conjuncts env seat)

def startConjuncts : Conditions :=
  block.startConditions env.graphId ++ block.temporal.conditions picks.now .node ++
    block.conjuncts env block.startSeat ++ (picks.vectorParts block.start.aliasName).conditions

/-- The conditions on a hop, which may follow only some of its kinds. -/
def ownConjuncts (hop variant : Traversal) : Conditions :=
  variant.kindConditions ++ block.hopVisibility picks ++ block.conjuncts env hop.seat

def hopConjuncts (hop : Traversal) : Conditions :=
  let own := block.ownConjuncts env picks hop hop
  if picks.isCounted hop.nodeAlias then
    [.equal (graphColumn .edge) (.text env.graphId), .kindIs hop.direction.near.kind block.start.kinds] ++ own
  else own ++ (picks.vectorParts hop.nodeAlias).conditions

/-- Every filter is a conjunct of one part of a statement, which has the aliases that it reads. -/
structure FiltersOnce (final : Seat) : Prop where
  once : ((block.seats final).flatMap block.seated).Perm (block.filters.map Filter.predicate)
  lowered : ∀ seat ∈ block.seats final, block.Lowers env seat
  visible : ∀ seat ∈ block.seats final, ∀ predicate ∈ block.seated seat, ∀ field ∈ predicate.fields,
    field.aliasName ∈ seat.visible

/-- The plan of a chain filters by the predicates of every part of its statement. -/
theorem FiltersOnce.filterCount_chainPlan {block : Block Nested} {env : Setting} {final : Seat}
    (filters : block.FiltersOnce env final) (ownerless : final.owner = none)
    (vector : Option VectorSearch) (counts : Option Counts) :
    (block.chainPlan block.placements vector counts).filterCount = block.filters.length := by
  have joined := block.filterCount_joined block.placements counts block.traversals
    (block.scanPlan block.placements block.start.aliasName .node)
  rw [← length_map Filter.predicate, ← filters.once.length_eq]
  cases vector <;>
  · simp [chainPlan, joined, seats, seated, startSeat, ownerless, Function.comp_def, Traversal.seat,
      PlanOperator.predicates]
    omega

/-- The final SELECT of a chain reads whatever is not counted. -/
def finalSeat : Seat :=
  let relations := block.relations env picks
  ⟨none, relations.scope false, relations.carried.map Carried.aliasName⟩

/-- The parts of a chain are the row sets of its start and of its hops, and its final SELECT. -/
structure ChainPlaced (level : Level Statement) : Prop where
  filters : block.FiltersOnce env (block.finalSeat env picks)
  rowSets : (level.rowSets.map fun rowSet => rowSet.members.map Select.conditions) =
    [block.startConjuncts env picks] :: block.traversals.map ([block.hopConjuncts env picks ·])
  final : level.select.conditions = block.conjuncts env (block.finalSeat env picks)

def walkSeat (walk : Walk) : Seat := ⟨none, (walk.relations block env picks).scope false, block.aliases⟩

/-- The parts of a walk are its first member, all members that extend it, and its final SELECT. -/
structure WalkPlaced (walk : Walk) (level : Level Statement) : Prop where
  filters : block.FiltersOnce env (block.walkSeat env picks walk)
  rowSets : (level.rowSets.map fun rowSet => rowSet.members.map Select.conditions) = [block.startConjuncts env picks ::
      (Walk.steps env.opts.dialect.capabilities.walk walk.hop).map fun step =>
        block.ownConjuncts env picks walk.hop step.1 ++ walk.stepConditions ++ step.2]
  final : level.select.conditions = walk.depthConditions ++ block.conjuncts env (block.walkSeat env picks walk)

/-- Every filter of a query is evaluated in one part of its level, whichever route the query takes. -/
structure PlacesFilters (level : Level Statement) (plan : Plan) : Prop where
  chain : block.isWalk = false ∨ block.isSingleHop = true →
    (∃ vector, block.routed.ChainPlaced env (block.routed.chainDecisions env.opts vector) level) ∧
      plan.filterCount = block.filters.length
  walk : block.isWalk = true → block.isSingleHop = false → ∃ walk, block.walk = .ok walk ∧
    block.WalkPlaced env (block.walkDecisions env.opts none) walk level

end Statement

variable {block : Block Nested} {env : Setting}

section Lowering

variable {picks : Decisions} (placements : picks.placements = block.placements)

include placements

theorem lowerPlaced_returns (env : Setting) (seat : Seat) :
    Returns (block.lowerPlaced env.opts.dialect picks seat.scope seat.owner).result fun conditions =>
      conditions = block.conjuncts env seat ∧ block.Lowers env seat := by
  have each := Predicate.lowerAll_forall₂ env.opts.dialect seat.scope (block.seated seat)
  unfold lowerPlaced Lowers conjuncts
  rw [placements, ← seated]
  cases lowered : (Predicate.lowerAll env.opts.dialect seat.scope (block.seated seat)).result with
  | error error => trivial
  | ok conditions =>
    rw [lowered] at each
    exact ⟨rfl, each⟩

theorem startRowSet_returns : Returns (block.startRowSet env picks).result fun rowSet =>
    rowSet.members.map Select.conditions = [block.startConjuncts env picks] ∧ block.Lowers env block.startSeat := by
  simp only [startRowSet, result_bind, result_pure, returns_bind, returns_ok]
  apply (lowerPlaced_returns placements env block.startSeat).imp
  rintro conditions ⟨rfl, lowers⟩
  exact ⟨rfl, lowers⟩

/-- The conditions of a hop are in its row set, which may be one of counts. -/
theorem rowSetOf_returns (hop : Traversal) (later : List Traversal) :
    Returns (block.rowSetOf env picks hop later).result fun rowSet =>
      rowSet.members.map Select.conditions = [block.hopConjuncts env picks hop] ∧ block.Lowers env hop.seat := by
  have placed := lowerPlaced_returns placements env hop.seat
  have plain (uncounted : picks.isCounted hop.nodeAlias = false) :
      Returns (block.hopRowSet env picks hop later).result fun rowSet =>
        rowSet.members.map Select.conditions = [block.hopConjuncts env picks hop] ∧ block.Lowers env hop.seat := by
    simp only [hopRowSet, hopConditions, result_bind, result_pure, returns_bind, returns_ok]
    apply placed.imp
    rintro conditions ⟨rfl, lowers⟩
    exact ⟨by simp [hopConjuncts, ownConjuncts, uncounted], lowers⟩
  unfold rowSetOf
  cases found : picks.counts with
  | none => exact plain (by simp [Decisions.isCounted, found])
  | some counts =>
    dsimp only
    split
    · next same =>
      simp only [countRowSet, hopConditions, result_bind, result_pure, returns_bind, returns_ok]
      apply placed.imp
      rintro conditions ⟨rfl, lowers⟩
      exact ⟨by simp [hopConjuncts, ownConjuncts, Decisions.isCounted, found, same], lowers⟩
    · next other => exact plain (by simp [Decisions.isCounted, found, other])

theorem hopRowSets_placed (hops : List Traversal) : Returns (block.hopRowSets env picks hops).result fun rowSets =>
      (rowSets.map fun rowSet => rowSet.members.map Select.conditions) = hops.map ([block.hopConjuncts env picks ·]) ∧
      ∀ hop ∈ hops, block.Lowers env hop.seat := by
  induction hops with
  | nil => simp [hopRowSets]
  | cons hop later ih =>
    simp only [result_hopRowSets_cons, returns_bind, returns_ok, forall_mem_cons]
    apply (rowSetOf_returns placements hop later).imp
    rintro rowSet ⟨first, lowers⟩
    apply ih.imp
    rintro rest ⟨others, otherLowers⟩
    exact ⟨by simp [first, others], lowers, otherLowers⟩

theorem chainSelect_returns : Returns (block.chainSelect env picks).result fun select =>
    select.conditions = block.conjuncts env (block.finalSeat env picks) ∧
      block.Lowers env (block.finalSeat env picks) := by
  simp only [result_chainSelect, returns_bind, returns_pure]
  refine returns_all fun _ => ?_
  apply (lowerPlaced_returns placements env (block.finalSeat env picks)).imp
  rintro conditions ⟨rfl, lowers⟩
  exact returns_all fun _ => returns_all fun _ => returns_all fun _ => ⟨rfl, lowers⟩

theorem walkSelect_returns {walk : Walk} : Returns (walk.select block env picks).result fun select =>
    select.conditions = walk.depthConditions ++ block.conjuncts env (block.walkSeat env picks walk) ∧
      block.Lowers env (block.walkSeat env picks walk) := by
  simp only [Walk.result_select, returns_bind, returns_pure]
  refine returns_all fun _ => ?_
  apply (lowerPlaced_returns placements env (block.walkSeat env picks walk)).imp
  rintro conditions ⟨rfl, lowers⟩
  exact returns_all fun _ => returns_all fun _ => returns_all fun _ => ⟨rfl, lowers⟩

end Lowering

/-- Where every part of a statement is lowered, every filter is evaluated in one of them. -/
theorem filtersOnce {vector : Option VectorSearch} {final : Seat}
    (analyzed : (block.analyzeReferences env.opts.dialect).result = .ok vector)
    (ownerless : final.owner = none) (carried : block.seated final = [] ∨ block.aliases ⊆ final.visible)
    (start : block.Lowers env block.startSeat)
    (hops : ∀ hop ∈ block.traversals, block.Lowers env hop.seat) (last : block.Lowers env final) :
    block.FiltersOnce env final := by
  have bound := ((block.analyzeReferences_ensures _).of_ok analyzed).1
  rw [result_analyzeReferences] at analyzed
  obtain ⟨_, validated, -⟩ := exists_of_bind_eq_ok analyzed
  refine ⟨bound.perm_seated ownerless, ?_, bound.visible (block.validate_resolved.of_ok validated) carried⟩
  simpa [seats, or_imp, forall_and] using ⟨start, hops, last⟩

/-- Counts are made only where no filter is left to the final SELECT. -/
theorem finalSeat_visible (block : Block Nested) (env : Setting) (vector : Option VectorSearch) :
    let final := block.finalSeat env (block.chainDecisions env.opts vector)
    block.seated final = [] ∨ block.aliases ⊆ final.visible := by
  cases found : block.counts block.placements vector with
  | none =>
    right
    simp [finalSeat, relations, Decisions.isCounted, chainDecisions, found, Function.comp_def]
  | some counts =>
    left
    have owned : ∀ filter ∈ block.filters, (block.placement filter).isSome = true := by
      unfold Block.counts at found
      split at found
      · split at found
        · next applies =>
          simp only [Bool.and_eq_true, placements, all_map] at applies
          exact all_eq_true.mp applies.1.2
        · cases found
      · cases found
    refine eq_nil_iff_forall_not_mem.mpr fun predicate placed => ?_
    obtain ⟨filter, mem, -, placement⟩ := placedAt_spec placed
    have isOwned := owned filter mem
    simp [placement, finalSeat] at isOwned

theorem compileChain_placed (block : Block Nested) : Returns (block.compileChain env).result fun compiled =>
    (∃ vector, block.ChainPlaced env (block.chainDecisions env.opts vector) compiled.1) ∧
      compiled.2.filterCount = block.filters.length := by
  unfold compileChain
  simp only [result_bind, result_pure, returns_bind, result_analyzeChain, returns_mapOk]
  cases analyzed : (block.analyzeReferences env.opts.dialect).result with
  | error error => trivial
  | ok vector =>
    simp only [chainLevel, result_bind, result_pure, returns_bind, returns_ok]
    apply (startRowSet_returns rfl).imp
    rintro start ⟨startConditions, startLowers⟩
    apply (hopRowSets_placed rfl block.traversals).imp
    rintro hops ⟨hopConditions, hopLowers⟩
    apply (chainSelect_returns rfl).imp
    rintro select ⟨finalConditions, finalLowers⟩
    have filters := filtersOnce analyzed rfl (block.finalSeat_visible env vector) startLowers hopLowers finalLowers
    exact ⟨⟨vector, filters, by simp [startConditions, hopConditions], finalConditions⟩,
      filters.filterCount_chainPlan rfl vector _⟩

theorem compileWalk_placed {level : Level Statement} {plan : Plan}
    (compiled : (block.compileWalk env).result = .ok (level, plan)) : ∃ walk, block.walk = .ok walk ∧
      block.WalkPlaced env (block.walkDecisions env.opts none) walk level := by
  obtain ⟨picks, analyzed, made⟩ := analyzeWalk_of_compileWalk compiled
  simp only [walkLevel, result_bind] at made
  obtain ⟨walk, isWalk, -⟩ := exists_of_bind_eq_ok made
  have found : block.walk = .ok walk := isWalk
  obtain ⟨only, asked, -⟩ := walk_spec found
  obtain ⟨references, -⟩ := oneWalk_of_analyzeWalk only asked analyzed
  obtain ⟨-, _, _, select, atStart, atHop, selected, rfl⟩ := compileWalk_spec found compiled
  obtain ⟨rfl, startLowers⟩ := (lowerPlaced_returns rfl env block.startSeat).of_ok atStart
  obtain ⟨rfl, hopLowers⟩ := (lowerPlaced_returns rfl env walk.hop.seat).of_ok atHop
  obtain ⟨finalConditions, finalLowers⟩ := (walkSelect_returns rfl).of_ok selected
  refine ⟨walk, found, filtersOnce references rfl (.inr (List.Subset.refl _)) startLowers ?_ finalLowers, ?_,
    finalConditions⟩
  · simpa [only] using hopLowers
  · simp [Walk.level, Walk.startSelect, Walk.stepSelects, Walk.stepSelect, startConjuncts, ownConjuncts,
      Decisions.vectorParts, walkDecisions, Function.comp_def]

end Block

/-- No filter is lost, evaluated twice or misplaced. The parts of a statement take every filter once,
each as a condition of its own, and where the aliases that it reads are in scope. For hops of fixed length
these are the row sets and the final SELECT, and the filters of the plan count as many predicates. For a
walk they are its first member, every member that extends it, and the final SELECT. -/
theorem compile_placesFilters {block : Block Nested} {env : Setting} {level : Level Statement} {plan : Plan}
    (compiled : (block.compile env).result = .ok (level, plan)) : block.PlacesFilters env level plan := by
  have routed : (block.compileLevel env).result = .ok (level, plan) := by
    simp only [Block.compile, result_bind, result_pure] at compiled
    obtain ⟨made, isMade, checked⟩ := exists_of_bind_eq_ok compiled
    obtain ⟨-, -, same⟩ := exists_of_bind_eq_ok checked
    cases same
    exact isMade
  unfold Block.compileLevel at routed
  split at routed
  · next single =>
    refine ⟨fun _ => ?_, by simp [single]⟩
    rw [show block.routed = block.withoutWalks by simp [Block.routed, single]]
    exact block.withoutWalks.compileChain_placed.of_ok routed
  · next manyHops =>
    split at routed
    · next isWalk => exact ⟨by simp [isWalk, manyHops], fun _ _ => Block.compileWalk_placed routed⟩
    · next noWalk =>
      refine ⟨fun _ => ?_, by simp [noWalk]⟩
      rw [Block.routed_of_noWalk (Bool.eq_false_iff.mpr noWalk)]
      exact block.compileChain_placed.of_ok routed

/-- Persons of a known age, with friends where one of the two has a name. -/
def namedFriends : Block Nested :=
  let known (aliasName name : String) : Predicate Nested := .nullCheck (.ofProperty aliasName name) .isNotNull
  ((Block.ofKind "p" "person").traverse (.outwardFrom "p" "e" "knows" "f" "person")).filterBy .node "p"
    (known "p" "age") |>.filterBy .node "f" (.or [known "p" "name", known "f" "name"])

theorem namedFriends_placesFilters :
    ∃ level plan, (namedFriends.compile ⟨{}, "people", ""⟩).result = .ok (level, plan) ∧
      namedFriends.PlacesFilters ⟨{}, "people", ""⟩ level plan :=
  ⟨_, _, rfl, compile_placesFilters rfl⟩

end GraphSql
