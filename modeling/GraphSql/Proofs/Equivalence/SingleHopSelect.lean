import GraphSql.Proofs.Equivalence.Rescoping
import GraphSql.Proofs.Equivalence.WalkRows
import GraphSql.Proofs.Pruning.Present

namespace GraphSql

open List Output

namespace Block

section WithoutWalks

variable {σ : Type} (block : Block σ)

section

variable (aliasName : String)

theorem bindingIn_map_walk (index : Nat) (hops : List Traversal) :
    bindingIn aliasName index (hops.map fun hop => { hop with walk := none }) = bindingIn aliasName index hops := by
  induction hops generalizing index with
  | nil => rfl
  | cons hop rest ih => simp [bindingIn, ih]

@[simp] theorem binding?_withoutWalks : block.withoutWalks.binding? aliasName = block.binding? aliasName := by
  simp only [binding?, withoutWalks, bindingIn_map_walk]

@[simp] theorem elementOf_withoutWalks : block.withoutWalks.elementOf aliasName = block.elementOf aliasName := by
  simp [elementOf]

@[simp] theorem ownerOf_withoutWalks : block.withoutWalks.ownerOf aliasName = block.ownerOf aliasName := by
  have hops (index : Nat) : block.withoutWalks.traversals[index]?.map Traversal.nodeAlias =
      block.traversals[index]?.map Traversal.nodeAlias := by
    simp [withoutWalks, Function.comp_def]
  simp only [ownerOf, binding?_withoutWalks, hops]
  rfl

end

@[simp] theorem aliases_withoutWalks : block.withoutWalks.aliases = block.aliases := by
  simp [aliases, withoutWalks, flatMap_map]

@[simp] theorem placements_withoutWalks : block.withoutWalks.placements = block.placements := by
  have same (filter : Filter σ) : block.withoutWalks.placement filter = block.placement filter := by
    simp [placement]
  exact map_congr_left fun filter _ => same filter

@[simp] theorem everyColumn_withoutWalks : block.withoutWalks.everyColumn = block.everyColumn := by
  funext aliasName
  simp [everyColumn]

@[simp] theorem neededColumns_withoutWalks (placements : List (Option String)) :
    block.withoutWalks.neededColumns placements = block.neededColumns placements := by
  have columns (field : Field) : block.withoutWalks.columnsOf field = block.columnsOf field := by simp [columnsOf]
  funext aliasName
  simp only [neededColumns, isRead, elementOf_withoutWalks, columns]
  rfl

@[simp] theorem lateFields_withoutWalks : block.withoutWalks.lateFields = block.lateFields := by
  simp only [lateFields, placements_withoutWalks]
  rfl

theorem apart_withoutWalks {letterCase : LetterCase} : block.withoutWalks.Apart letterCase ↔ block.Apart letterCase := by
  simp [Apart, carriedNames]

theorem checkTraversals_withoutWalks {hops : List Traversal}
    (silent : ∀ hop ∈ hops, walkAliases hop = []) (seen joinable : List String) :
    checkTraversals seen joinable (hops.map fun hop => { hop with walk := none }) =
      checkTraversals seen joinable hops := by
  induction hops generalizing seen joinable with
  | nil => rfl
  | cons hop rest ih =>
    rw [forall_mem_cons] at silent
    have same : checkTraversal seen joinable { hop with walk := none } = checkTraversal seen joinable hop := by
      unfold checkTraversal
      rw [silent.1]
      rfl
    simp [checkTraversals, same, ih silent.2]

@[simp] theorem findSimilarity_withoutWalks (dialect : Dialect) :
    block.withoutWalks.findSimilarity dialect = block.findSimilarity dialect := by
  have search : block.withoutWalks.checkSimilarity dialect = block.checkSimilarity dialect := by
    funext search
    simp [checkSimilarity]
  simp only [findSimilarity, search]
  rfl

/-- A query whose walks return neither path nor depth passes the same checks without them. -/
theorem analyzeReferences_withoutWalks (silent : ∀ hop ∈ block.traversals, walkAliases hop = []) (dialect : Dialect) :
    block.withoutWalks.analyzeReferences dialect = block.analyzeReferences dialect := by
  have bindings : block.withoutWalks.checkBindings = block.checkBindings := by
    unfold checkBindings
    simp only [withoutWalks, checkTraversals_withoutWalks silent]
  have field : block.withoutWalks.checkField = block.checkField := by
    funext clause field
    simp [checkField]
  have filter : block.withoutWalks.checkFilter = block.checkFilter := by
    funext filter
    simp [checkFilter, field]
  have references : block.withoutWalks.checkReferences = block.checkReferences := by
    simp only [checkReferences, field, filter]
    rfl
  have carried (taken : List (String × String)) (aliases : List String) :
      block.withoutWalks.checkCarriedNames taken aliases = block.checkCarriedNames taken aliases := by
    induction aliases generalizing taken with
    | nil => rfl
    | cons aliasName rest ih => simp [checkCarriedNames, carriedNames, ih]
  have validated : block.withoutWalks.validate = block.validate := by
    simp only [validate, bindings, references, carried, aliases_withoutWalks]
    rfl
  simp [analyzeReferences, validated]

end WithoutWalks

end Block

/-- The hop of a walk, taken as a plain hop. -/
def Walk.plainHop (walk : Walk) : Traversal := { walk.hop with walk := none }

/-- Every row that a plain hop reads is found in the row of a walk. -/
def Walk.merge (env : Setting) (_ : Row) : Row := .relation (rowSetName env)

namespace Block

variable {σ : Type} (block : Block σ) (env : Setting)

/-- The decisions about a query whose walk is taken as a plain hop, without counts. -/
def hopDecisions (opts : Options) : Decisions := (block.withoutWalks.chainDecisions opts none).withoutCounts

theorem lowerPlaced_hopDecisions (block : Block Nested) (opts : Options) (dialect : Dialect)
    (scope : Scope) (place : Option String) :
    block.withoutWalks.lowerPlaced dialect (block.hopDecisions opts) scope place =
      block.lowerPlaced dialect (block.walkDecisions opts none) scope place :=
  congrArg (fun placements => Predicate.lowerAll dialect scope (block.placedAt placements place))
    block.placements_withoutWalks

def hopOutput : Output := block.withoutWalks.chainOutput env (block.hopDecisions env.opts)

def walkOutput (block : Block Nested) (env : Setting) (walk : Walk) : Output :=
  walk.output block env (block.walkDecisions env.opts none)

/-- The alias is one of the two ends of the hop. -/
def IsEnd (hop : Traversal) (aliasName : String) : Prop := aliasName = block.start.aliasName ∨ aliasName = hop.nodeAlias

/-- The reference is to a column of an end of the hop that a plain hop carries. -/
def EndColumn (hop : Traversal) : Reference → Prop := fun reference =>
  ∃ aliasName column, block.IsEnd hop aliasName ∧ column.existsOn .node = true ∧
    column ∈ (block.hopDecisions env.opts).carried aliasName ∧
    reference = .column (.relation (env.rowSetName aliasName)) (carriedName aliasName column)

/-- A query with one walk, of one step, which says what it returns and has no bounds. -/
structure SingleHop (block : Block Nested) (opts : Options) (walk : Walk) : Prop where
  walks : block.OneWalk (block.walkDecisions opts none) walk
  hops : block.withoutWalks.OneHop (block.hopDecisions opts) walk.plainHop
  names : block.Apart .ignored
  kinded : block.Kinded
  unsearched : block.Unsearched
  isStep : walk.walk.isSingleStep = true
  range : walk.range = ⟨1, 1⟩
  optional : walk.hop.optional = false
  projection : block.projection ≠ []
  limit : block.limit = none
  offset : block.offset = none
  /-- Each selected column exists. -/
  selected : ∀ selected ∈ block.selectedFields, ∀ column, selected.field.target = .ok (.column column) →
      column.existsOn (block.elementOf selected.field.aliasName) = true

namespace SingleHop

variable {block : Block Nested} {env : Setting} {walk : Walk} {field : Field}
variable (single : block.SingleHop env.opts walk)

include single

theorem elementOf_end {aliasName : String} (isEnd : block.IsEnd walk.hop aliasName) :
    block.elementOf aliasName = .node := by
  rcases isEnd with rfl | rfl
  · exact block.elementOf_start
  · exact single.walks.elementOf_node

omit single in
/-- Only the ends of a walk are found, each with all its columns. -/
theorem lookup_walkOutput (aliasName : String) :
    Returns ((block.walkOutput env walk).relations.lookup aliasName) fun carried =>
      block.IsEnd walk.hop aliasName ∧
        carried = ⟨aliasName, Walk.rowSetName env, .node, block.everyColumn aliasName⟩ := by
  apply ((block.walkOutput env walk).relations.lookup_ensures aliasName).returns.imp
  rintro carried ⟨mem, name⟩
  obtain ⟨isEnd, same⟩ := Walk.mem_relations mem
  rw [name] at isEnd same
  exact ⟨isEnd, same⟩

theorem lookup_hopOutput {aliasName : String} (isEnd : block.IsEnd walk.hop aliasName) :
    (block.hopOutput env).relations.lookup aliasName = .ok ⟨aliasName, env.rowSetName aliasName, .node,
        (block.hopDecisions env.opts).carried aliasName⟩ := by
  rcases isEnd with rfl | rfl
  · exact single.hops.lookup_start_uncounted rfl
  · exact single.hops.lookup_node rfl

omit single in
/-- The columns of the ends that nodes have are read from the row of the walk. -/
theorem column_walkOutput (aliasName : String) (column : Column) :
    Returns ((block.walkOutput env walk).relations.column aliasName column) fun term =>
      block.IsEnd walk.hop aliasName ∧ column.existsOn .node = true ∧
        term = .column (.relation (Walk.rowSetName env)) (carriedName aliasName column) := by
  unfold Relations.column
  rw [returns_bind]
  apply (lookup_walkOutput aliasName).imp
  rintro carried ⟨isEnd, rfl⟩
  unfold checkColumn
  split
  · next present =>
    rw [returns_bind, returns_ok]
    split
    · exact ⟨isEnd, present, rfl⟩
    · trivial
  · trivial

/-- What is read late is read from the two row sets of a plain hop as it is from the walk. -/
theorem rescoped (late : field ∈ block.lateFields) : field.Rescoped (Walk.merge env) (block.EndColumn env walk.hop)
      (block.walkOutput env walk).scope (block.hopOutput env).scope := by
  intro column read
  apply (column_walkOutput field.aliasName column).imp
  rintro term ⟨isEnd, present, rfl⟩
  have kept : column ∈ (block.hopDecisions env.opts).carried field.aliasName := by
    refine single.hops.fit.late field (by rwa [lateFields_withoutWalks]) column read ?_
    rw [elementOf_withoutWalks, single.elementOf_end isEnd]
    exact present
  refine ⟨_, Relations.column_of_lookup (single.lookup_hopOutput isEnd) present kept, rfl, ?_⟩
  intro reference mem
  obtain rfl := mem_singleton.mp mem
  exact ⟨field.aliasName, column, isEnd, present, kept, rfl⟩

/-- A field that the final SELECT over the walks reads is a column that exists. -/
theorem has_of_readIn (readIn : field.ReadIn (block.walkOutput env walk).scope) : block.Has field := by
  intro column named
  obtain ⟨term, served⟩ := readIn column named
  obtain ⟨isEnd, present, -⟩ := (column_walkOutput field.aliasName column).of_ok served
  rw [single.elementOf_end isEnd]
  exact present

/-- The final SELECT over the walks is made only if the columns that it reads exist. -/
theorem existsOn_of_select : Returns (walk.select block env (block.walkDecisions env.opts none)).result fun _ =>
      ∀ field ∈ block.lateFields, block.Has field := by
  rw [Walk.result_select]
  exact has_of_clauses (fun _ => single.has_of_readIn) true (by rintro _ _ ⟨⟩) (fun _ => single.selected)
    (single.unsearched.readIn _) single.unsearched.having (by simp)

section

variable (present : ∀ field ∈ block.lateFields, block.Has field)
variable (final : field ∈ block.finalFields block.placements)

include present final

omit single in
theorem carried_of_whole (whole : field.target = .ok .whole) :
    (block.hopDecisions env.opts).carried field.aliasName = block.everyColumn field.aliasName := by
  have carried : (block.hopDecisions env.opts).carried =
      if block.isPruned then block.neededColumns block.placements else block.everyColumn := by
    simp only [hopDecisions, Decisions.withoutCounts, chainDecisions, placements_withoutWalks,
      neededColumns_withoutWalks, everyColumn_withoutWalks]
    rfl
  rw [carried]
  split
  · exact neededColumns_eq_everyColumn final whole fun other mem => present other (late_of_mem_finalFields mem)
  · rfl

theorem wholeRescoped : Output.WholeRescoped (Walk.merge env) (block.EndColumn env walk.hop)
      (block.walkOutput env walk) (block.hopOutput env) field := by
  intro whole
  have all : (block.hopDecisions env.opts).carried field.aliasName =
      block.everyColumn field.aliasName := carried_of_whole present final whole
  have looked : Follows (fun carried other => block.IsEnd walk.hop field.aliasName ∧ carried =
        ⟨field.aliasName, Walk.rowSetName env, .node, block.everyColumn field.aliasName⟩ ∧
      other = ⟨field.aliasName, env.rowSetName field.aliasName, .node, block.everyColumn field.aliasName⟩)
      ((block.walkOutput env walk).relations.lookup field.aliasName)
      ((block.hopOutput env).relations.lookup field.aliasName) := by
    apply (lookup_walkOutput field.aliasName).imp
    rintro carried ⟨isEnd, same⟩
    refine ⟨_, single.lookup_hopOutput isEnd, isEnd, same, ?_⟩
    rw [all]
  unfold Relations.allColumns
  apply looked.bind
  rintro carried other ⟨isEnd, rfl, rfl⟩
  refine (follows_pure _ _).mpr ⟨?_, ?_⟩
  · rw [map_map]
    rfl
  · intro entry mem reference read
    obtain ⟨column, kept, rfl⟩ := mem_map.mp mem
    obtain rfl := mem_singleton.mp read
    have present := Column.mem_ofElement.mp kept
    rw [single.elementOf_end isEnd] at present
    exact ⟨field.aliasName, column, isEnd, present, by rw [all]; exact kept, rfl⟩

end

section Clauses

variable (present : ∀ field ∈ block.lateFields, block.Has field)

include present

theorem columns_rescoped : Follows (Output.ColumnsRescoped (Walk.merge env) (block.EndColumn env walk.hop))
      ((block.walkOutput env walk).columns block)
      ((block.hopOutput env).columns block.withoutWalks) := by
  have mem : block.withoutWalks.projection ≠ [] := single.projection
  rw [columns_of_projection _ single.projection, columns_of_projection _ mem]
  refine projectionsFrom_rescoped rfl rfl (fun _ => rfl) (fun _ => rfl) ?_ ?_ 0
  · intro projection member
    exact single.rescoped (late_projection member)
  · intro projection member target source
    have projected : projectedField? projection = some target := by rw [projectedField?, source]
    have final : target ∈ block.projection.filterMap projectedField? :=
      mem_filterMap.mpr ⟨projection, member, projected⟩
    exact single.wholeRescoped present (by simp [finalFields, final])

theorem groupBy_rescoped : Follows (Output.TermsRescoped (Walk.merge env) (block.EndColumn env walk.hop))
      ((block.walkOutput env walk).groupBy block.groupBy)
      ((block.hopOutput env).groupBy block.groupBy) := by
  refine Output.groupBy_rescoped ?_ ?_
  · intro field mem
    exact single.rescoped (late_groupBy mem)
  · intro field mem
    exact single.wholeRescoped present (by simp [finalFields, mem])

end Clauses

theorem filters_rescoped : Follows (Predicate.AllRescoped (Walk.merge env) (block.EndColumn env walk.hop))
      (block.lowerPlaced env.opts.dialect (block.walkDecisions env.opts none)
        (block.walkOutput env walk).scope none).result
      (block.withoutWalks.lowerPlaced env.opts.dialect (block.hopDecisions env.opts)
        (block.hopOutput env).scope none).result := by
  have aggregates : (block.walkOutput env walk).scope.aggregates = (block.hopOutput env).scope.aggregates := rfl
  rw [lowerPlaced_hopDecisions]
  refine Predicate.lowerAll_rescoped env.opts.dialect aggregates _ fun field mem => ?_
  rw [Predicate.fieldsOf_eq_flatMap] at mem
  obtain ⟨predicate, placed, inPredicate⟩ := mem_flatMap.mp mem
  exact single.rescoped (late_placed placed inPredicate)

theorem having_rescoped : Follows (fun condition source => condition = source.map (Condition.rename (Walk.merge env)) ∧
        ∀ lowered ∈ source, ∀ reference ∈ lowered.references, block.EndColumn env walk.hop reference)
      ((block.walkOutput env walk).having env.opts.dialect block.having).result
      ((block.hopOutput env).having env.opts.dialect block.having).result :=
  Output.having_rescoped env.opts.dialect fun _ found _ mem => single.rescoped (late_having found mem)

/-- The order of the result is computed too, though it does not change the rows. -/
theorem orderBy_follows : Follows (fun _ _ => True) ((block.walkOutput env walk).orderBy block.orderBy)
      ((block.hopOutput env).orderBy block.orderBy) := by
  have keys := sortKeys_rescoped fun order (mem : order ∈ block.orderBy) => single.rescoped (late_orderBy mem)
  change Follows _ ((block.walkOutput env walk).sortKeys block.orderBy >>= _)
    ((block.hopOutput env).sortKeys block.orderBy >>= _)
  exact keys.bind fun _ _ _ => (follows_pure _ _).mpr trivial

end SingleHop

/-- The final SELECT of a plain hop is made of the same clauses as one over walks, up to the rows that
they are read from, but for the depth. -/
structure SelectsAlike (block : Block Nested) (env : Setting) (walk : Walk)
    (ofWalk ofHop : Select Statement) : Prop where
  corresponds : ofHop.Corresponds (Walk.merge env) (block.EndColumn env walk.hop) ofWalk
  conditions : ofWalk.conditions = walk.depthConditions ++ Condition.renameAll (Walk.merge env) ofHop.conditions
  conditionsRead : ∀ reference ∈ Condition.referencesOf ofHop.conditions, block.EndColumn env walk.hop reference
  walkSource : ofWalk.source = .relation (Walk.rowSetName env) none
  walkJoins : ofWalk.joins = []
  walkBounds : ofWalk.bounds = none
  hopSource : ofHop.source = .relation (env.rowSetName block.start.aliasName) none
  hopJoins : ofHop.joins = block.withoutWalks.traversals.map (rowSetJoin env (block.hopDecisions env.opts))
  hopBounds : ofHop.bounds = none

namespace SingleHop

variable {block : Block Nested} {env : Setting} {walk : Walk}
variable (single : block.SingleHop env.opts walk)

include single

omit single in
theorem trailOutputs_eq_nil (isStep : walk.walk.isSingleStep = true) : walk.trailOutputs = [] := by
  simp only [WalkSpec.isSingleStep, Bool.and_eq_true, Option.isNone_iff_eq_none] at isStep
  simp [Walk.trailOutputs, isStep.1.2, isStep.2]

theorem selects_alike (present : ∀ field ∈ block.lateFields, block.Has field) : Follows (block.SelectsAlike env walk)
      (walk.select block env (block.walkDecisions env.opts none)).result
      (block.withoutWalks.chainSelect env (block.hopDecisions env.opts)).result := by
  have uncounted : (block.hopDecisions env.opts).counts.isNone = true := rfl
  have limit : block.withoutWalks.limit = none := single.limit
  have offset : block.withoutWalks.offset = none := single.offset
  have walkNearest : (block.walkOutput env walk).nearest = none := rfl
  have hopNearest : (block.hopOutput env).nearest = none := rfl
  rw [Walk.result_select, result_chainSelect]
  simp only [uncounted, single.hops.collapse, if_true, Bool.false_eq_true, if_false]
  apply (single.columns_rescoped present).bind
  intro columns others columnsAlike
  apply single.filters_rescoped.bind
  intro conditions sources conditionsAlike
  apply (single.groupBy_rescoped present).bind
  intro groupBy keys groupsAlike
  apply single.having_rescoped.bind
  intro having kept havingAlike
  apply single.orderBy_follows.bind
  intro orderBy orders _
  refine (follows_pure _ _).mpr ⟨⟨?_, groupsAlike.1, havingAlike.1, columnsAlike.2, groupsAlike.2,
    havingAlike.2⟩, ?_, conditionsAlike.2, rfl, rfl, ?_, rfl, rfl, ?_⟩
  · rw [trailOutputs_eq_nil single.isStep, append_nil]
    exact columnsAlike.1
  · rw [conditionsAlike.1]
  · exact bounds_eq_none walkNearest single.limit single.offset
  · exact bounds_eq_none hopNearest limit offset

end SingleHop

end Block

end GraphSql
