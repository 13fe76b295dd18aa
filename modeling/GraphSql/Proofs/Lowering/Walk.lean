import GraphSql.Proofs.Lowering.Hop
import GraphSql.Proofs.Lowering.Output

namespace GraphSql.Walk

open Block Condition List NodeKey Term Traced

variable {env : Setting} {reach : List Visible} {known : List Declared}
variable {holds : Statement → Prop} {block : Block Nested} {picks : Decisions} {walk : Walk}

def outputs (walk : Walk) (picks : Decisions) (start : String) : List String :=
  (picks.carried start).map (carriedName start) ++
    (picks.carried walk.hop.nodeAlias).map (carriedName walk.hop.nodeAlias) ++
    depthName :: if walk.walk.tracksPath then [pathName] else []

variable {start : String}

theorem start_mem_outputs {column : Column} (carried : column ∈ picks.carried start) :
    carriedName start column ∈ walk.outputs picks start := by
  simp only [outputs, mem_append]
  exact .inl (.inl (mem_map_of_mem carried))

theorem node_mem_outputs {column : Column} (carried : column ∈ picks.carried walk.hop.nodeAlias) :
    carriedName walk.hop.nodeAlias column ∈ walk.outputs picks start := by
  simp only [outputs, mem_append]
  exact .inl (.inr (mem_map_of_mem carried))

theorem depth_mem_outputs (start : String) : depthName ∈ walk.outputs picks start := by simp [outputs]

theorem path_mem_outputs (tracked : walk.walk.tracksPath = true) (start : String) :
    pathName ∈ walk.outputs picks start := by
  simp [outputs, tracked]

theorem names_trailColumns (walk : Walk) (depth path : Term) (reach : List Visible) :
    (walk.trailColumns depth path).flatMap (OutputColumn.names reach) =
      depthName :: if walk.walk.tracksPath then [pathName] else [] := by
  unfold trailColumns
  split <;> rfl

theorem trailColumns_inReach {depth path : Term} (depthReads : depth.Reads (Reference.InReach reach))
    (pathReads : walk.walk.tracksPath = true → path.Reads (Reference.InReach reach)) :
    ∀ column ∈ walk.trailColumns depth path, column.InReach reach := by
  intro column member
  rcases mem_cons.mp member with rfl | ofPath
  · exact depthReads
  · split at ofPath
    · next tracked =>
      obtain rfl := mem_singleton.mp ofPath
      exact pathReads tracked
    · simp at ofPath

theorem startMember_ensures (bound : block.Bound) (fit : picks.Fit block)
    (nested : block.NestedEnsures holds) (env : Setting)
    (member : walk.hop ∈ block.traversals) :
    Ensures (walk.startMember block env picks).result fun select =>
      select.Scoped holds known (walk.outputs picks block.start.aliasName) := by
  have nodes : Table.nodes.visible ∈ [Table.nodes.visible] := mem_singleton_self _
  have readable := Element.readable .node nodes
  unfold startMember
  simp only [result_bind, result_pure, ensures_bind]
  apply (lowerPlaced_ensures env.opts.dialect fit.placements (startScope_serves bound readable.column) nested).imp
  intro placed admitted
  refine ⟨_, _, .table .nodes, rfl, ⟨?_, ?_, by simp, by simp, by simp⟩, ?_⟩
  · simp only [forall_mem_append]
    refine ⟨⟨?_, ?_⟩, ?_⟩
    · exact block.tableColumns_inReach picks (by rwa [elementOf_start])
    · exact block.tableColumns_inReach picks (by rwa [bound.elementOf_node member])
    · have integer : (Term.integer 0).Reads (Reference.InReach [Table.nodes.visible]) := by
        simp [Term.Reads, Term.references]
      have path : (pathStart node.id).Reads (Reference.InReach [Table.nodes.visible]) := (node_reads readable).id
      exact trailColumns_inReach integer fun _ => path
  · simp only [forall_mem_append]
    have judges := judges_admits (Reference.InReach [Table.nodes.visible]) holds
    exact ⟨⟨judges.startConditions readable block env.graphId trivial,
      judges.visibility block.temporal fit.now readable.column⟩, admitted⟩
  · simp [names_tableColumns, names_trailColumns, outputs]

/-- A hop that walks follow in a step, under the names of the hop of the walk. -/
structure IsStep (walk : Walk) (variant : Traversal) (guards : Conditions) : Prop where
  edgeAlias : variant.edgeAlias = walk.hop.edgeAlias
  nodeAlias : variant.nodeAlias = walk.hop.nodeAlias
  guards : ∀ {reads fits good}, Judges reads fits good → Element.edge.Readable reads →
    ∀ condition ∈ guards, good condition

theorem loopGuards_good {reads : Reference → Prop} {fits : List String → Prop}
    {good : Condition Statement → Prop} (judges : Judges reads fits good) (hop : Traversal)
    (edges : Element.edge.Readable reads) : ∀ condition ∈ loopGuards hop, good condition := by
  unfold loopGuards
  dsimp only
  split
  · simp
  · next some =>
    refine forall_mem_singleton.mpr (judges.notAll (forall_mem_append.mpr ⟨?_, ?_⟩))
    · exact judges.same (near_reads edges _) (far_reads edges _)
    · exact forall_mem_singleton.mpr (judges.kindIs (edges.column .kind rfl) (judges.nonempty _ (by simpa using some)))

/-- What holds of a hop, of it along its edges and of it against them holds of the steps. -/
theorem forall_mem_steps {property : Traversal × Conditions → Prop} {hop : Traversal}
    (strategy : WalkStrategy) (whole : property (hop, []))
    (along : hop.edgeKinds ≠ [] → property (direct hop, []))
    (against : hop.inverseEdgeKinds ≠ [] → property (inverse hop, loopGuards hop)) :
    ∀ step ∈ steps strategy hop, property step := by
  cases strategy with
  | oneMember => exact forall_mem_singleton.mpr whole
  | manyMembers =>
    refine forall_mem_append.mpr ⟨?_, ?_⟩
    · split
      · exact forall_mem_nil _
      · next some => exact forall_mem_singleton.mpr (along (by simpa using some))
    · split
      · exact forall_mem_nil _
      · next some => exact forall_mem_singleton.mpr (against (by simpa using some))

theorem isStep_of_mem (walk : Walk) (strategy : WalkStrategy) :
    ∀ step ∈ steps strategy walk.hop, walk.IsStep step.1 step.2 :=
  forall_mem_steps strategy ⟨rfl, rfl, by simp⟩ (fun _ => ⟨rfl, rfl, by simp⟩)
    fun _ => ⟨rfl, rfl, fun judges edges => loopGuards_good judges walk.hop edges⟩

theorem stepConditions_admits (visible : ⟨.walk, walk.outputs picks start⟩ ∈ reach)
    (nodes : Table.nodes.visible ∈ reach) :
    ∀ condition ∈ walk.stepConditions, condition.Admits (Reference.InReach reach) holds := by
  intro condition member
  rcases mem_cons.mp member with rfl | ofPath
  · exact admits_compare (column_reads visible (depth_mem_outputs start)) (by simp [Term.Reads, Term.references]) _
  · split at ofPath
    · next tracked =>
      obtain rfl := mem_singleton.mp ofPath
      refine admits_of_references ?_ rfl
      intro reference mem
      rcases mem_append.mp mem with ofTrail | ofNode
      · exact column_reads visible (path_mem_outputs tracked start) reference ofTrail
      · exact (node_reads (Element.readable .node nodes)).id reference ofNode
    · simp at ofPath

section

variable (bound : block.Bound) (fit : picks.Fit block) (nested : block.NestedEnsures holds)
variable (env : Setting) (member : walk.hop ∈ block.traversals)

include bound fit nested member

/-- A step reads the walks so far and outputs longer walks. -/
theorem stepMember_ensures {variant : Traversal} {guards : Conditions} (isStep : walk.IsStep variant guards)
    (declared : ⟨rowSetName env, walk.outputs picks block.start.aliasName⟩ ∈ known) :
    Ensures (walk.stepMember block env picks variant guards).result fun select =>
      select.Scoped holds known (walk.outputs picks block.start.aliasName) := by
  have node := bound.elementOf_node member
  let before : Visible := ⟨.walk, walk.outputs picks block.start.aliasName⟩
  let reach := [Table.nodes.visible, Table.edges.visible, before]
  have start : (NodeKey.carried .walk variant.nodeAlias).Reads (Reference.InReach [before]) := by
    rw [isStep.nodeAlias]
    exact carried_inReach (mem_singleton_self _) (node_mem_outputs (fit.id _)) (node_mem_outputs (fit.kind _ node))
  have joins : Join.Extend holds known _ _ _ :=
    variant.joins_extend env.graphId start env.opts.dialect.capabilities.fixesJoinOrder
  have nodes : Table.nodes.visible ∈ reach := mem_cons_self
  have edges : Table.edges.visible ∈ reach := by simp [reach]
  have visible : before ∈ reach := by simp [reach]
  unfold stepMember
  simp only [result_bind, result_pure, ensures_bind]
  apply (hopConditions_ensures bound fit nested env.opts.dialect member
    isStep.edgeAlias isStep.nodeAlias (Element.readable .edge edges)
    (Element.readable .node nodes)).imp
  intro conditions admitted
  refine ⟨_, _, .renamed declared .walk, joins, ⟨?_, ?_, by simp, by simp, by simp⟩, ?_⟩
  · simp only [forall_mem_append]
    refine ⟨⟨?_, ?_⟩, ?_⟩
    · exact forall_mem_map.mpr fun _ kept => column_reads visible (start_mem_outputs kept)
    · exact block.tableColumns_inReach picks (by rwa [isStep.nodeAlias, node])
    · have depth : (successor (.column .walk depthName)).Reads (Reference.InReach _) :=
        column_reads visible (depth_mem_outputs _)
      refine trailColumns_inReach depth ?_
      intro tracked reference mem
      rcases mem_append.mp mem with ofPath | ofNode
      · exact column_reads visible (path_mem_outputs tracked _) reference ofPath
      · exact (node_reads (Element.readable .node nodes)).id reference ofNode
  · simp only [forall_mem_append]
    exact ⟨⟨admitted, stepConditions_admits visible nodes⟩,
      isStep.guards (judges_admits _ _) (Element.readable .edge edges)⟩
  · simp [OutputColumn.names_named, names_tableColumns, names_trailColumns, isStep.nodeAlias, outputs]

theorem stepMembers_ensures {steps : List (Traversal × Conditions)}
    (areSteps : ∀ step ∈ steps, walk.IsStep step.1 step.2)
    (declared : ⟨rowSetName env, walk.outputs picks block.start.aliasName⟩ ∈ known) :
    Ensures (walk.stepMembers block env picks steps).result fun selects =>
      ∀ select ∈ selects, select.Scoped holds known (walk.outputs picks block.start.aliasName) := by
  induction steps with
  | nil => simp [stepMembers]
  | cons step rest ih =>
    obtain ⟨variant, guards⟩ := step
    simp only [stepMembers, result_bind, result_pure, ensures_bind]
    apply (stepMember_ensures bound fit nested env member (areSteps _ mem_cons_self) declared).imp
    intro first firstScoped
    apply (ih fun other mem => areSteps other (mem_cons_of_mem _ mem)).imp
    intro others othersScoped
    simpa using ⟨firstScoped, othersScoped⟩

end

theorem mem_relations {carried : Carried} (member : carried ∈ (walk.relations block env picks).carried) :
    (carried.aliasName = block.start.aliasName ∨ carried.aliasName = walk.hop.nodeAlias) ∧
      carried = ⟨carried.aliasName, rowSetName env, .node, picks.carried carried.aliasName⟩ := by
  obtain ⟨aliasName, mem, rfl⟩ := mem_map.mp member
  exact ⟨mem_pair.mp mem, rfl⟩

def output (walk : Walk) (block : Block Nested) (env : Setting) (picks : Decisions) : Output where
  relations := walk.relations block env picks
  aliases := [block.start.aliasName, walk.hop.nodeAlias]

theorem result_select (walk : Walk) (block : Block Nested) (env : Setting) (picks : Decisions) :
    (walk.select block env picks).result = do
      let output := walk.output block env picks
      let dialect := env.opts.dialect
      let columns ← output.columns block
      let conditions ← (block.lowerPlaced dialect picks output.scope none).result
      let groupBy ← output.groupBy block.groupBy
      let having ← (output.having dialect block.having).result
      let orderBy ← output.orderBy block.orderBy
      return {
        columns := columns ++ walk.trailOutputs
        source := .relation (rowSetName env) none
        conditions := walk.depthConditions ++ conditions
        groupBy
        having
        orderBy
        bounds := output.bounds block } := by
  unfold select
  simp only [result_bind, result_pure]
  rfl

theorem output_inReach (fit : picks.Fit block) (visible : ⟨.relation (rowSetName env),
      walk.outputs picks block.start.aliasName⟩ ∈ reach) :
    (walk.output block env picks).InReach reach := by
  refine ⟨⟨?_, ?_⟩, by simp [output], by simp [output]⟩
  · intro carried member column kept
    obtain ⟨ends, same⟩ := mem_relations member
    rw [same] at kept ⊢
    refine column_reads visible ?_
    rcases ends with start | node
    · rw [start] at kept ⊢
      exact start_mem_outputs kept
    · rw [node] at kept ⊢
      exact node_mem_outputs kept
  · intro carried member empty
    obtain ⟨-, same⟩ := mem_relations member
    have id : Column.id ∈ carried.columns := by
      rw [same]
      exact fit.id carried.aliasName
    simp [empty] at id

theorem relations_keeps (bound : block.Bound) (fit : picks.Fit block)
    (member : walk.hop ∈ block.traversals) {field : Field} (late : field ∈ block.lateFields) :
    (walk.relations block env picks).Keeps field := by
  intro carried mem name column read present
  obtain ⟨ends, same⟩ := mem_relations mem
  have element : block.elementOf field.aliasName = .node := by
    rw [← name]
    rcases ends with start | node
    · rw [start, elementOf_start]
    · rw [node, bound.elementOf_node member]
  rw [same] at present ⊢
  rw [name]
  exact fit.late field late column read (by rw [element]; exact present)

theorem trailOutputs_inReach {row : Row} (visible : ⟨row, walk.outputs picks start⟩ ∈ reach) :
    ∀ column ∈ walk.trailOutputs, column.InReach reach := by
  intro column member
  rcases mem_append.mp member with ofDepth | ofPath
  · obtain ⟨name, -, rfl⟩ := mem_map.mp ofDepth
    exact bare_reads visible (depth_mem_outputs start)
  · obtain ⟨name, present, rfl⟩ := mem_map.mp ofPath
    have tracked : walk.walk.tracksPath = true := by simp [WalkSpec.tracksPath, Option.mem_toList.mp present]
    exact bare_reads visible (path_mem_outputs tracked start)

theorem depthConditions_admits {row : Row} (visible : ⟨row, walk.outputs picks start⟩ ∈ reach) :
    ∀ condition ∈ walk.depthConditions, condition.Admits (Reference.InReach reach) holds := by
  intro condition member
  unfold depthConditions at member
  split at member
  · simp at member
  · obtain rfl := mem_singleton.mp member
    exact admits_compare (bare_reads visible (depth_mem_outputs start)) (by simp [Term.Reads, Term.references]) _

theorem select_ensures (bound : block.Bound) (fit : picks.Fit block)
    (nested : block.NestedEnsures holds) (env : Setting)
    (member : walk.hop ∈ block.traversals)
    (declared : ⟨rowSetName env, walk.outputs picks block.start.aliasName⟩ ∈ known) :
    Ensures (walk.select block env picks).result fun select =>
      (∃ outputs, select.Scoped holds known outputs) ∧
        select.Writes (!block.orderBy.isEmpty) (block.limit.isSome || block.offset.isSome)
          (!block.groupBy.isEmpty) block.having.isSome := by
  have visible : ⟨.relation (rowSetName env), walk.outputs picks block.start.aliasName⟩ ∈
      ([⟨.relation (rowSetName env), walk.outputs picks block.start.aliasName⟩] : List Visible) := mem_singleton_self _
  have inReach := output_inReach fit visible
  have keeps {field : Field} (late : field ∈ block.lateFields) : (walk.output block env picks).relations.Keeps field :=
    relations_keeps bound fit member late
  rw [result_select]
  simp only [ensures_bind]
  apply (Output.columns_ensures inReach (fun _ mem => keeps (late_projection mem))
    fun _ mem => keeps (late_selected mem)).imp
  intro columns columnsRead
  apply (lowerPlaced_ensures env.opts.dialect fit.placements (fun _ placed _ mem =>
      inReach.relations.serves (keeps (late_placed placed mem)) false) nested).imp
  intro conditions admitted
  apply (Output.groupBy_ensures inReach fun _ mem => keeps (late_groupBy mem)).imp
  rintro terms ⟨grouped, termsRead⟩
  apply (Output.having_ensures inReach env.opts.dialect (fun _ found _ mem => keeps (late_having found mem))
    fun _ found query mem => nested query (nested_having found mem)).imp
  rintro condition ⟨restricted, conditionAdmitted⟩
  apply (Output.orderBy_ensures inReach fun _ mem => keeps (late_orderBy mem)).imp
  rintro keys ⟨ordered, keysRead⟩
  have bounds := (walk.output block env picks).isSome_bounds block
  refine ⟨⟨_, _, _, .relation declared, rfl,
    ⟨?_, ?_, termsRead, conditionAdmitted, keysRead⟩, rfl⟩, ?_, ?_, ?_, restricted⟩
  · intro column mem
    exact (mem_append.mp mem).elim (columnsRead column) (trailOutputs_inReach visible column)
  · intro condition mem
    exact (mem_append.mp mem).elim (depthConditions_admits visible condition) (admitted condition)
  · rw [ordered]
    simp [output]
  · exact bounds.trans (by simp [output])
  · rw [grouped]

end GraphSql.Walk

namespace GraphSql.Block

variable {holds : Statement → Prop} {block : Block Nested} {picks : Decisions}

/-- The walk of a query is that of its only hop, with the depths that this one asks for. -/
theorem walk_spec {σ : Type} {block : Block σ} {walk : Walk} (found : block.walk = .ok walk) :
    block.traversals = [walk.hop] ∧ walk.hop.walk = some walk.walk ∧ walk.walk.depthRange = .ok walk.range := by
  unfold Block.walk onlyWalk at found
  obtain ⟨⟨hop, spec⟩, only, rest⟩ := exists_of_bind_eq_ok found
  obtain ⟨range, ranged, same⟩ := exists_of_bind_eq_ok rest
  cases same
  split at only
  · next single =>
    split at only
    · next asked =>
      cases only
      exact ⟨single, asked, ranged⟩
    · cases only
  · cases only

theorem walk_ensures {σ : Type} {block : Block σ} (isWalk : block.isWalk = true) :
    Ensures block.walk fun walk => walk.hop ∈ block.traversals := by
  unfold Block.walk
  rw [ensures_bind]
  apply (onlyWalk_ensures isWalk).imp
  rintro ⟨hop, walk⟩ ⟨single, -⟩
  dsimp only
  rw [ensures_bind]
  apply (depthRange_ensures walk).imp
  intro range _
  rw [ensures_pure, single]
  exact List.mem_singleton_self _

theorem walkLevel_ensures (isWalk : block.isWalk = true) (bound : block.Bound) (fit : picks.Fit block)
    (nested : block.NestedEnsures holds) (env : Setting) :
    Ensures (block.walkLevel env picks).result fun level =>
      level.Scoped holds ∧ level.select.Writes (!block.orderBy.isEmpty) (block.limit.isSome || block.offset.isSome)
          (!block.groupBy.isEmpty) block.having.isSome := by
  unfold walkLevel
  simp only [Traced.result_bind, Traced.result_pure, ensures_bind]
  apply (walk_ensures isWalk).imp
  intro walk member
  apply (walk.startMember_ensures bound fit nested env member).imp
  intro first firstScoped
  apply (walk.stepMembers_ensures bound fit nested env member
    (walk.isStep_of_mem env.opts.dialect.capabilities.walk) List.mem_cons_self).imp
  intro further furtherScoped
  apply (walk.select_ensures bound fit nested env member List.mem_cons_self).imp
  rintro select ⟨selectScoped, writes⟩
  exact ⟨⟨_, ⟨firstScoped, furtherScoped⟩, selectScoped⟩, writes⟩

end GraphSql.Block
