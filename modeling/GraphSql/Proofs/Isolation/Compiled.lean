import GraphSql.Proofs.Isolation.Confinement
import GraphSql.Proofs.Levels
import GraphSql.Proofs.Precedence

namespace GraphSql

open List Select Table Traced Traversal

variable {hop : Traversal}

section Requires

variable {σ : Type} {select : Select σ} {rows : List Row} {condition : Condition σ}

namespace Select

/-- A condition of WHERE has to hold. -/
theorem requires_of_mem (mem : condition ∈ select.conditions) (inReach : rows ⊆ select.reach) :
    select.Requires rows condition :=
  ⟨select.reach, mem_append_right _ (mem_map_of_mem mem), inReach⟩

theorem mem_joinRequirements {join : Join σ} (mem : condition ∈ join.conditions)
    (reach : List Row) (before after : List (Join σ)) :
    (reach ++ before.map (fun other => other.source.row) ++ [join.source.row], condition) ∈
      joinRequirements reach (before ++ join :: after) := by
  induction before generalizing reach with
  | nil => simpa [joinRequirements] using Or.inl mem
  | cons first rest ih =>
    refine mem_append_right _ ?_
    simpa using ih (reach ++ [first.source.row])

/-- A condition of ON has to hold where it is checked. -/
theorem requires_of_join {join : Join σ} (mem : condition ∈ join.conditions)
    (before after : List (Join σ)) (joins : select.joins = before ++ join :: after)
    (inReach : rows ⊆ select.source.row :: before.map (fun other => other.source.row) ++ [join.source.row]) :
    select.Requires rows condition := by
  refine ⟨_, mem_append_left _ ?_, inReach⟩
  rw [joins]
  exact mem_joinRequirements mem [select.source.row] before after

end Select

theorem Condition.RestrictsEdge.mono {kinds wider : List String} (included : kinds ⊆ wider)
    (restricts : condition.RestrictsEdge kinds) : condition.RestrictsEdge wider := by
  induction restricts with
  | kindIs some mem => exact .kindIs some (List.Subset.trans mem included)
  | all _ ih => exact .all ih
  | any _ _ ofFirst ofSecond => exact .any ofFirst ofSecond

theorem Traversal.leavesFrom_restrictsEdge (start : NodeKey) (direction : Direction)
    {admitted kinds : List String} (some : admitted ≠ []) (included : admitted ⊆ kinds) :
    (leavesFrom start direction admitted : Condition σ).RestrictsEdge kinds :=
  .all (.kindIs some included)

/-- A hop with inverse kinds restricts its edges where it joins them. -/
theorem Traversal.edgeConditions_restrictsEdge (hop : Traversal) (start : NodeKey)
    (inverse : hop.inverseEdgeKinds ≠ []) :
    ∃ condition ∈ (hop.edgeConditions start : List (Condition σ)), condition.RestrictsEdge hop.allKinds := by
  have backward : (leavesFrom start hop.direction.reversed hop.inverseEdgeKinds :
      Condition σ).RestrictsEdge hop.allKinds :=
    leavesFrom_restrictsEdge _ _ inverse (subset_append_right _ _)
  by_cases direct : hop.edgeKinds = []
  · exact ⟨_, by simp [edgeConditions, inverse, direct], backward⟩
  · have forward : (leavesFrom start hop.direction hop.edgeKinds : Condition σ).RestrictsEdge hop.allKinds :=
      leavesFrom_restrictsEdge _ _ direct (subset_append_left _ _)
    exact ⟨_, by simp [edgeConditions, inverse, direct], .any forward backward⟩

end Requires

theorem Element.table_ne_embeddings (element : Element) : embeddings ≠ element.table := by cases element <;> decide

theorem Element.table_injective : Function.Injective Element.table := by
  intro first second
  cases first <;> cases second <;> decide

variable {block : Block Nested} {env : Setting} {picks : Decisions}
variable {holds : String → Query → Select Statement → Prop}

namespace Select

variable {select : Select Statement}

/-- The join adds embeddings, which are no elements. -/
def JoinsEmbeddings (joins : List (Join Statement)) : Prop :=
  ∀ join ∈ joins, join.kind = .inner ∧ join.source = .table .embeddings

theorem joinsEmbeddings_nil : JoinsEmbeddings [] := by simp [JoinsEmbeddings]

theorem confined_of_start (source : select.source = .table .nodes)
    (joins : JoinsEmbeddings select.joins) (kinds : block.start.kinds ≠ [])
    (conditions : block.startConditions env.graphId ++
      block.temporal.conditions (block.temporal.now env.opts) .node ⊆ select.conditions) :
    select.Confined block env := by
  have isNode (element : Element) (scans : select.Scans element) : element = .node := by
    rcases scans with first | ⟨join, member, joined⟩
    · exact Element.table_injective (Source.table.inj (first.symm.trans source))
    · have same := Source.table.inj ((joins join member).2.symm.trans joined)
      exact absurd same element.table_ne_embeddings
  have inReach : [Row.node] ⊆ select.reach := by simp [reach, source, row]
  have required (condition : Condition Statement) (mem : condition ∈ block.startConditions env.graphId ++
        block.temporal.conditions (block.temporal.now env.opts) .node) :
      select.Requires [.node] condition := requires_of_mem (conditions mem) inReach
  refine ⟨fun join member => (joins join member).1, ?_, ?_, fun _ => ⟨kinds, ?_⟩, ?_⟩
  · intro element scans
    obtain rfl := isNode element scans
    exact .direct (required _ (by simp [Block.startConditions, Row.ofElement]))
  · intro scans
    exact absurd (isNode .edge scans) (by decide)
  · exact required _ (by simp [Block.startConditions])
  · intro element scans condition mem
    obtain rfl := isNode element scans
    exact required _ (mem_append_right _ mem)

/-- A SELECT over an edge and a node is confined if the edge is tied to the graph and restricted to
kinds, the node is in the graph of the edge, and both are visible. -/
theorem confined_of_edge (inner : ∀ join ∈ select.joins, join.kind = .inner)
    (source : select.source ≠ .table .nodes) (inReach : [.edge, .node] ⊆ select.reach)
    (tied : select.Requires [.edge] (.equal (graphColumn .edge) (.text env.graphId)))
    (together : select.Requires [.node, .edge] (.equal (graphColumn .node) (graphColumn .edge)))
    (edgeKinds : ∃ hop ∈ block.traversals, ∃ condition,
      select.Requires [.edge] condition ∧ condition.RestrictsEdge hop.allKinds)
    (now : picks.now = block.temporal.now env.opts)
    (visible : block.hopVisibility picks ⊆ select.conditions) :
    select.Confined block env := by
  refine ⟨inner, ?_, fun _ => edgeKinds, fun first => absurd first source, ?_⟩
  · intro element _
    cases element with
    | node => exact .throughEdge together tied
    | edge => exact .direct tied
  · intro element _ condition mem
    rw [← now] at mem
    cases element with
    | node =>
      exact requires_of_mem (visible (mem_append_right _ mem)) (List.Subset.trans (by simp [Row.ofElement]) inReach)
    | edge =>
      exact requires_of_mem (visible (mem_append_left _ mem)) (List.Subset.trans (by simp [Row.ofElement]) inReach)

theorem confined_of_hop (now : picks.now = block.temporal.now env.opts)
    {step : Traversal} (mem : hop ∈ block.traversals) (kinds : step.allKinds ≠ [])
    (included : step.allKinds ⊆ hop.allKinds) (source : select.source ≠ .table .nodes)
    {start : NodeKey} {ordered : Bool} {further : List (Join Statement)}
    (joins : select.joins = step.joins env.graphId start ordered ++ further)
    (embeddings : JoinsEmbeddings further)
    (conditions : step.kindConditions ++ block.hopVisibility picks ⊆ select.conditions) :
    select.Confined block env := by
  have inReach : [.edge, .node] ⊆ select.reach := by simp [reach, joins, Traversal.joins, row]
  have ofEdge (condition : Condition Statement) (member : condition ∈ .equal (graphColumn .edge) (.text env.graphId) ::
        step.edgeConditions start) : select.Requires [.edge] condition :=
    requires_of_join member [] _ joins (by simp [row])
  have together : select.Requires [.node, .edge] (.equal (graphColumn .node) (graphColumn .edge)) :=
    requires_of_join mem_cons_self [_] further joins (by simp [row])
  refine confined_of_edge ?_ source inReach (ofEdge _ mem_cons_self) together
    ⟨hop, mem, ?_⟩ now fun condition member => conditions (mem_append_right _ member)
  · intro join member
    rw [joins] at member
    rcases mem_append.mp member with ofHop | later
    · simp only [Traversal.joins, mem_cons, not_mem_nil, or_false] at ofHop
      rcases ofHop with rfl | rfl <;> rfl
    · exact (embeddings join later).1
  -- Without inverse kinds the edge kinds are checked in WHERE, and otherwise where edges are joined.
  · by_cases inverse : step.inverseEdgeKinds = []
    · have direct : step.edgeKinds ≠ [] := by simpa [allKinds, inverse] using kinds
      have checked : edgeKindIs step.edgeKinds ∈ select.conditions :=
        conditions (mem_append_left _ (by simp [kindConditions, inverse]))
      refine ⟨_, requires_of_mem checked (List.Subset.trans (by simp) inReach), ?_⟩
      exact .kindIs direct (List.Subset.trans (subset_append_left _ _) included)
    · obtain ⟨condition, member, restricts⟩ := step.edgeConditions_restrictsEdge start inverse
      exact ⟨condition, ofEdge _ (mem_cons_of_mem _ member), restricts.mono included⟩

end Select

namespace Block

/-- Hops that are counted follow their edges one way only. -/
theorem inverseEdgeKinds_of_counts {σ : Type} {block : Block σ} {placements : List (Option String)}
    {vector : Option VectorSearch} {counts : Counts}
    (found : block.counts placements vector = some counts) :
    ∀ hop ∈ block.traversals, hop.inverseEdgeKinds = [] := by
  unfold Block.counts at found
  split at found
  · next hop single =>
    split at found
    · next counted =>
      simp only [Bool.and_eq_true, List.isEmpty_iff] at counted
      simp [single, counted]
    · simp at found
  · simp at found

end Block

theorem Decisions.vectorParts_joinsEmbeddings (picks : Decisions) (aliasName : String) :
    Select.JoinsEmbeddings (picks.vectorParts aliasName).joins := by
  unfold vectorParts
  split
  · split
    · simp [Select.JoinsEmbeddings, VectorSearch.parts]
    · exact joinsEmbeddings_nil
  · exact joinsEmbeddings_nil

def RowSet.Confined {σ τ : Type} (block : Block τ) (env : Setting) (rowSet : RowSet σ) : Prop :=
  ∀ member ∈ rowSet.members, member.Confined block env

namespace Block

variable (now : picks.now = block.temporal.now env.opts)

include now

/-- Start rows are of the graph and of the kinds of the query. -/
theorem startRowSet_confined (kinds : block.start.kinds ≠ []) :
    Returns (block.startRowSet env picks).result (RowSet.Confined block env) := by
  unfold startRowSet
  simp only [result_bind, result_pure, returns_bind]
  refine returns_all fun placed => ?_
  intro member mem
  obtain rfl := mem_singleton.mp mem
  refine confined_of_start rfl (picks.vectorParts_joinsEmbeddings _) kinds ?_
  dsimp only
  rw [now, append_assoc _ placed]
  exact subset_append_left _ _

omit now in
theorem hopConditions_include (hop : Traversal) :
    Returns (block.hopConditions env.opts.dialect picks hop).result fun conditions =>
      hop.kindConditions ++ block.hopVisibility picks ⊆ conditions := by
  unfold hopConditions
  simp only [result_bind, result_pure, returns_bind]
  exact returns_all fun placed => subset_append_left _ _

/-- The rows that a hop adds are of the graph and of its kinds. -/
theorem hopRowSet_confined (mem : hop ∈ block.traversals) (kinds : hop.allKinds ≠ []) (later : List Traversal) :
    Returns (block.hopRowSet env picks hop later).result (RowSet.Confined block env) := by
  unfold hopRowSet
  simp only [result_bind, result_pure, returns_bind]
  apply (hopConditions_include hop).imp
  intro conditions included member inRowSet
  obtain rfl := mem_singleton.mp inRowSet
  have source : block.hopSource env picks hop ≠ .table .nodes := by
    unfold hopSource
    dsimp only
    split <;> simp
  exact confined_of_hop now mem kinds (List.Subset.refl _) source rfl (picks.vectorParts_joinsEmbeddings _)
    (List.Subset.trans included (subset_append_left _ _))

theorem countRowSet_confined (mem : hop ∈ block.traversals) (kinds : hop.allKinds ≠ [])
    (oneWay : hop.inverseEdgeKinds = []) (counts : Counts) :
    Returns (block.countRowSet env picks hop counts).result (RowSet.Confined block env) := by
  have direct : hop.edgeKinds ≠ [] := by simpa [allKinds, oneWay] using kinds
  unfold countRowSet
  simp only [result_bind, result_pure, returns_bind]
  apply (hopConditions_include hop).imp
  intro conditions included member inRowSet
  obtain rfl := mem_singleton.mp inRowSet
  have inWhere : conditions ⊆ [.equal (graphColumn .edge) (.text env.graphId),
      .kindIs hop.direction.near.kind block.start.kinds] ++ conditions :=
    subset_append_right _ _
  have kindIs : edgeKindIs hop.edgeKinds ∈ conditions := included (mem_append_left _ (by simp [kindConditions, oneWay]))
  refine confined_of_edge (by simp) (by simp) (by simp [reach, row]) ?_ ?_
    ⟨hop, mem, _, ?_, .kindIs direct (subset_append_left _ _)⟩ now ?_
  · exact requires_of_mem (by simp) (by simp [reach, row])
  · exact requires_of_join mem_cons_self [] [] rfl (by simp [row])
  · exact requires_of_mem (inWhere kindIs) (by simp [reach, row])
  · exact fun condition member => inWhere (included (mem_append_right _ member))

end Block

namespace Walk

/-- Each step follows some of the kinds of the hop. -/
theorem allKinds_of_mem_steps {strategy : WalkStrategy} (kinds : hop.allKinds ≠ []) :
    ∀ step ∈ steps strategy hop, step.1.allKinds ≠ [] ∧ step.1.allKinds ⊆ hop.allKinds :=
  forall_mem_steps strategy ⟨kinds, List.Subset.refl _⟩ (fun some => by simpa [allKinds, direct] using some)
    fun some => by simpa [allKinds, inverse] using some

variable (now : picks.now = block.temporal.now env.opts)

include now

theorem startMember_confined (kinds : block.start.kinds ≠ []) (walk : Walk) :
    Returns (walk.startMember block env picks).result (Select.Confined block env) := by
  unfold startMember
  simp only [result_bind, result_pure, returns_bind]
  refine returns_all fun placed => ?_
  refine confined_of_start rfl joinsEmbeddings_nil kinds ?_
  rw [now]
  exact subset_append_left _ _

theorem stepMember_confined {walk : Walk} (mem : walk.hop ∈ block.traversals) {step : Traversal}
    (kinds : step.allKinds ≠ []) (included : step.allKinds ⊆ walk.hop.allKinds)
    (guards : Conditions) :
    Returns (walk.stepMember block env picks step guards).result (Select.Confined block env) := by
  unfold stepMember
  simp only [result_bind, result_pure, returns_bind]
  apply (Block.hopConditions_include step).imp
  intro conditions contained
  refine confined_of_hop now mem kinds included (by simp)
    (append_nil _).symm joinsEmbeddings_nil (List.Subset.trans contained ?_)
  dsimp only
  rw [append_assoc]
  exact subset_append_left _ _

end Walk

/-- The SELECT reads row sets only. -/
def Select.ReadsRowSets {σ : Type} (select : Select σ) : Prop := ∀ element, ¬ select.Scans element

/-- Every row set of the level is confined, and the final SELECT reads nothing but row sets. -/
structure Level.Confined {σ τ : Type} (block : Block τ) (env : Setting) (level : Level σ) : Prop where
  rowSets : ∀ rowSet ∈ level.rowSets, rowSet.Confined block env
  select : level.select.ReadsRowSets

namespace Block

theorem chainSelect_readsRowSets : Returns (block.chainSelect env picks).result Select.ReadsRowSets := by
  rw [result_chainSelect]
  simp only [returns_bind, returns_pure]
  refine returns_all fun _ => returns_all fun _ => returns_all fun _ => returns_all fun _ => returns_all fun _ => ?_
  rintro element (first | ⟨join, mem, joined⟩)
  · simp at first
  · dsimp only at mem
    split at mem
    · simp at mem
    · obtain ⟨hop, -, rfl⟩ := mem_map.mp mem
      simp [rowSetJoin] at joined

theorem walkSelect_readsRowSets (walk : Walk) : Returns (walk.select block env picks).result Select.ReadsRowSets := by
  unfold Walk.select
  simp only [result_bind, result_pure, returns_bind]
  refine returns_all fun _ => returns_all fun _ => returns_all fun _ => returns_all fun _ => returns_all fun _ => ?_
  rintro element (first | ⟨join, mem, -⟩)
  · simp at first
  · simp at mem

theorem chainLevel_confined (kinded : block.Kinded) (now : picks.now = block.temporal.now env.opts)
    (oneWay : ∀ counts ∈ picks.counts, ∀ hop ∈ block.traversals, hop.inverseEdgeKinds = []) :
    Returns (block.chainLevel env picks).result (Level.Confined block env) := by
  refine (chainLevel_returns (startRowSet_confined now kinded.start) (fun counts found hop mem _ =>
    ?_) (fun hop mem later => ?_) chainSelect_readsRowSets).imp fun _ parts => ⟨parts.1, parts.2⟩
  · exact countRowSet_confined now mem (kinded.hops hop mem) (oneWay counts found hop mem) _
  · exact hopRowSet_confined now mem (kinded.hops hop mem) later

theorem walkLevel_confined (isWalk : block.isWalk = true) (kinded : block.Kinded)
    (now : picks.now = block.temporal.now env.opts) :
    Returns (block.walkLevel env picks).result (Level.Confined block env) := by
  refine (walkLevel_returns isWalk fun walk _ mem => ⟨Walk.startMember_confined now kinded.start walk,
    fun _ step isStep => ?_, walkSelect_readsRowSets walk⟩).imp fun _ parts =>
      ⟨fun rowSet made => (parts.1 rowSet made).2, parts.2⟩
  obtain ⟨kinds, included⟩ := Walk.allKinds_of_mem_steps (kinded.hops walk.hop mem) step isStep
  exact Walk.stepMember_confined now mem kinds included _

/-- A hop has its kinds whether or not it is taken as a walk. -/
theorem confined_of_withoutWalks {level : Level Statement}
    (confined : level.Confined block.withoutWalks env) : level.Confined block env := by
  refine ⟨fun rowSet mem member inRowSet => ?_, confined.select⟩
  obtain ⟨inner, graph, edgeKinds, startKinds, visible⟩ := confined.rowSets rowSet mem member inRowSet
  refine ⟨inner, graph, fun scans => ?_, startKinds, visible⟩
  obtain ⟨plain, inTraversals, restricted⟩ := edgeKinds scans
  obtain ⟨hop, member, rfl⟩ := mem_map.mp inTraversals
  exact ⟨hop, member, restricted⟩

/-- Every compiled level is confined to the graph of its query. -/
theorem compile_confined (block : Block Nested) (env : Setting) :
    Returns (block.compile env).result fun compiled => compiled.1.Confined block env := by
  have kinded (block : Block Nested) {vector : Option VectorSearch}
      (searched : (block.analyzeReferences env.opts.dialect).result = .ok vector) :
      block.Kinded := (block.analyzeReferences_kinded env.opts.dialect).of_ok searched
  have chain (block : Block Nested) (vector : Option VectorSearch)
      (searched : (block.analyzeReferences env.opts.dialect).result = .ok vector) :
      Returns (block.chainLevel env (block.chainDecisions env.opts vector)).result (Level.Confined block env) :=
    chainLevel_confined (kinded block searched) rfl fun _ found => inverseEdgeKinds_of_counts found
  refine compile_returns (Level.Confined block env) (fun _ vector searched => ?_)
    (fun _ isWalk searched => walkLevel_confined isWalk (kinded block searched) rfl)
    (fun _ => chain block)
  exact (chain _ vector searched).imp fun _ confined => confined_of_withoutWalks confined

end Block

namespace Query

variable {opts : Options}

/-- What each SELECT of a level promises: its WHERE and the ON of its joins are read as the AND of its
conditions, and if it reads tables, these conditions confine it to the graph and the kinds of its query and
to visible rows, so that no row in its reach is any other, whatever the engine, the tables and the other
conditions are. -/
def Isolates (opts : Options) (graphId : String) (query : Query) (level : Level Statement) : Prop :=
  ∀ select ∈ level.selects, select.Conjoins opts.dialect opts.schema ∧
    ∀ element, select.Scans element → select.Confined query.block { opts, graphId } ∧
      ∀ (ν : Type) [DecidableEq ν] (world : Context ν Statement), ∀ frame ∈ select.frames world, ∃ record,
          frame.lookup (.ofElement element) = some record ∧
            query.block.Admits { opts, graphId } world.db element record ∧
            (select.source = .table .nodes → element = .node → world.db.HasKind query.block.start.kinds record)

theorem compile_isolates {tag : String} (isTag : IsTag tag) (query : Query) (graphId : String)
    (level : Level Statement) (plan : Plan)
    (compiled : ((query.nested opts).compile { opts, graphId, tag }).result = .ok (level, plan)) :
    query.Isolates opts graphId level := by
  obtain ⟨reaches, named⟩ := (query.compileBlock_shaped { opts, graphId, tag } isTag).of_ok compiled
  have confined := ((query.nested opts).compile_confined { opts, graphId, tag }).of_ok compiled
  intro select member
  refine ⟨reaches.conjoins named select member, fun element scans => ?_⟩
  rcases mem_append.mp member with inRowSets | final
  · obtain ⟨rowSet, mem, inRowSet⟩ := mem_flatMap.mp inRowSets
    obtain ⟨inner, graph, edgeKinds, startKinds, visible⟩ := confined.rowSets rowSet mem select inRowSet
    have ofQuery : select.Confined query.block { opts, graphId } := ⟨inner, graph, edgeKinds, startKinds, visible⟩
    exact ⟨ofQuery, fun _ _ _ _ inFrames => ofQuery.admits inFrames scans⟩
  · obtain rfl := mem_singleton.mp final
    exact absurd scans (confined.select element)

end Query

/-- Every SELECT over tables of a compiled query is confined to the graph of the query and to rows that
are visible to it, whatever its predicates are and whatever tag its row sets have: in its text, the
conditions that confine it stand between ANDs that no OR of another condition can reach. Nested queries
are confined to their own graphs. -/
theorem compiled_isolated (opts : Options) (graphId tag : String) (isTag : IsTag tag) (query : Query) :
    (∀ statement plan, (query.statement opts graphId).result = .ok (statement, plan) →
        statement.EachLevel (Query.Isolates opts) graphId query) ∧
      ∀ level plan,
        ((query.nested opts).compile { opts, graphId, tag }).result = .ok (level, plan) →
          (Statement.mk level).EachLevel (Query.Isolates opts) graphId query := by
  constructor
  · intro statement plan compiled
    have each : Ensures (query.statement opts graphId).result fun compiled =>
        compiled.1.EachLevel (Query.Isolates opts) graphId query :=
      Query.statement_eachLevel (Query.compile_isolates (.inl rfl)) query graphId
    exact each.of_ok compiled
  · intro level plan compiled
    have each : Ensures ((query.nested opts).compile { opts, graphId, tag }).result fun compiled =>
        (Statement.mk compiled.1).EachLevel (Query.Isolates opts) graphId query :=
      Query.compile_eachLevel (Query.compile_isolates (.inl rfl)) (Query.compile_isolates isTag query graphId)
    exact each.of_ok compiled

theorem friendCounts_isolated :
    ∃ statement plan level,
      (friendCounts.statement {} "people").result = .ok (statement, plan) ∧
        statement.EachLevel (Query.Isolates {}) "people" friendCounts ∧
        ((friendCounts.nested {}).compile
          { opts := {}, graphId := "people", tag := "s1_" }).result = .ok (level, plan) ∧
        (Statement.mk level).EachLevel (Query.Isolates {}) "people" friendCounts := by
  have isolated := compiled_isolated {} "people" "s1_" (.inr rfl) friendCounts
  refine ⟨_, _, _, rfl, ?_, rfl, ?_⟩
  · exact isolated.1 _ _ rfl
  · exact isolated.2 _ _ rfl

end GraphSql
