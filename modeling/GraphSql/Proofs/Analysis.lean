import GraphSql.Proofs.Clauses
import GraphSql.Proofs.Lowering.Predicate

namespace GraphSql

open List Option ProjectionSource Traced

variable {aliasName : String} {column : Column} {field : Field} {σ : Type} {predicate : Predicate σ}

namespace Block

/-- The fields that are read after all joins. -/
def lateFields (block : Block σ) : List Field :=
  block.projection.map (·.source.fieldOf) ++ block.groupBy ++ block.havingFields ++
    block.orderBy.map Order.field ++ block.selectedFields.map SelectedField.field ++
    (block.placedAt block.placements none).flatMap Predicate.fields

variable {block : Block σ}

theorem late_projection {projection : Projection} (mem : projection ∈ block.projection) :
    projection.source.fieldOf ∈ block.lateFields := by
  simp only [lateFields, mem_append]
  exact .inl (.inl (.inl (.inl (.inl (List.mem_map_of_mem mem)))))

theorem late_groupBy (mem : field ∈ block.groupBy) : field ∈ block.lateFields := by
  simp only [lateFields, mem_append]
  exact .inl (.inl (.inl (.inl (.inr mem))))

theorem late_having (found : predicate ∈ block.having) (member : field ∈ predicate.fields) :
    field ∈ block.lateFields := by
  have mem : field ∈ block.havingFields := by
    rw [havingFields, mem_def.mp found]
    exact member
  simp only [lateFields, mem_append]
  exact .inl (.inl (.inl (.inr mem)))

theorem late_orderBy {order : Order} (mem : order ∈ block.orderBy) : order.field ∈ block.lateFields := by
  simp only [lateFields, mem_append]
  exact .inl (.inl (.inr (List.mem_map_of_mem mem)))

theorem late_selected {selected : SelectedField} (mem : selected ∈ block.selectedFields) :
    selected.field ∈ block.lateFields := by
  simp only [lateFields, mem_append]
  exact .inl (.inr (List.mem_map_of_mem mem))

theorem late_placed (placed : predicate ∈ block.placedAt block.placements none)
    (mem : field ∈ predicate.fields) : field ∈ block.lateFields := by
  simp only [lateFields, mem_append]
  exact .inr (mem_flatMap.mpr ⟨predicate, placed, mem⟩)

theorem nested_having (found : predicate ∈ block.having) : predicate.nested ⊆ block.nested := by
  intro query mem
  rw [nested, mem_def.mp found]
  exact mem_append_right _ (by simpa using mem)

end Block

/-- Every kind of edges that a hop follows. -/
def Traversal.allKinds (hop : Traversal) : List String := hop.edgeKinds ++ hop.inverseEdgeKinds

namespace Predicate

theorem containsSimilarity_eq_false_iff : predicate.containsSimilarity = false ↔ predicate.searches = [] := by
  induction predicate with
  | and operands ih | or operands ih =>
    simp only [containsSimilarity, anyPart, isSimilarity, anyPartOf_eq_any, Bool.false_or,
      List.any_eq_false, Bool.not_eq_true, searches, searchesOf_eq_flatMap, flatMap_eq_nil_iff]
      at ih ⊢
    exact forall₂_congr ih
  | not operand ih => simpa [containsSimilarity, anyPart, isSimilarity, searches] using ih
  | _ => simp [containsSimilarity, anyPart, isSimilarity, searches]

/-- Where no search stands under a disjunction or a negation, those at the top are all. -/
theorem topSimilarities_eq_searches (unnested : predicate.hasNestedSimilarity = false) :
    predicate.topSimilarities = predicate.searches := by
  induction predicate with
  | and operands ih =>
    simp only [hasNestedSimilarity, hasNestedSimilarityIn_eq_any, List.any_eq_false, Bool.not_eq_true] at unnested
    simp only [topSimilarities, searches, topSimilaritiesOf_eq_flatMap, searchesOf_eq_flatMap]
    exact flatMap_congr fun operand mem => ih operand mem (unnested operand mem)
  | or operands | not operand =>
    refine (containsSimilarity_eq_false_iff.mp ?_).symm
    simpa [containsSimilarity, anyPart, isSimilarity, anyPartOf_eq_any, hasNestedSimilarity] using unnested
  | _ => simp [topSimilarities, searches]

theorem containsSimilarity_eq_false (predicate : Predicate σ) (top : predicate.topSimilarities = [])
    (unnested : predicate.hasNestedSimilarity = false) : predicate.containsSimilarity = false :=
  containsSimilarity_eq_false_iff.mpr (topSimilarities_eq_searches unnested ▸ top)

end Predicate

/-- What the decisions about a query guarantee for its statement. -/
structure Decisions.Fit (picks : Decisions) (block : Block σ) : Prop where
  placements : picks.placements = block.placements
  /-- The point in time is not a column. -/
  now : ∀ moment ∈ picks.now, moment.references = []
  id : ∀ aliasName, .id ∈ picks.carried aliasName
  kind : ∀ aliasName, block.elementOf aliasName = .node → .kind ∈ picks.carried aliasName
  /-- A column that is read late is carried wherever it exists. -/
  late : ∀ field ∈ block.lateFields, ∀ column ∈ field.readColumns,
    column.existsOn (block.elementOf field.aliasName) = true → column ∈ picks.carried field.aliasName
  /-- Only nodes are searched. -/
  vector : ∀ vector ∈ picks.vector, block.elementOf vector.aliasName = .node ∧ vector.aliasName ∈ block.aliases

/-- The shortcuts that are taken apply. -/
structure Decisions.Shortcuts (picks : Decisions) (block : Block σ) : Prop where
  /-- Counts replace the only hop of a query without a search. -/
  counts : ∀ counts, picks.counts = some counts → ∃ hop, block.traversals = [hop] ∧ counts.nodeAlias = hop.nodeAlias ∧
      picks.vector = none ∧ picks.collapse = false
  /-- Row sets are collapsed along a single line of hops. -/
  collapse : picks.collapse = true → Block.isLinearFrom block.start.aliasName block.traversals = true

/-- The point in time is a value or the clock, never a column. -/
theorem TemporalMode.now_references (mode : TemporalMode) (opts : Options) :
    ∀ moment ∈ mode.now opts, moment.references = [] := by
  intro moment mem
  unfold now at mem
  cases mode with
  | asOf timestamp => exact (some_inj.mp mem) ▸ rfl
  | current =>
    cases found : opts.now <;>
    · rw [found] at mem
      exact (some_inj.mp mem) ▸ rfl
  | includeEnded | includeTombstones => simp at mem

namespace Block

variable {block : Block σ} {vector : Option VectorSearch}

/-- The pruning overlooks no field but aliases as a whole, of which only the id is read. -/
theorem mem_finalFields (late : field ∈ block.lateFields) :
    field ∈ block.finalFields block.placements ∨ field.target = .ok .whole := by
  simp only [lateFields, mem_append] at late
  simp only [finalFields, mem_append]
  rcases late with ((((projected | mem) | mem) | mem) | mem) | mem
  · obtain ⟨projection, member, rfl⟩ := List.mem_map.mp projected
    by_cases whole : projection.source.fieldOf.target = .ok .whole
    · exact .inr whole
    · have read : projectedField? projection = some projection.source.fieldOf := by
        unfold projectedField?
        cases source : projection.source with
        | field target => rfl
        | aggregate expression =>
          rw [source] at whole
          have other : expression.field.denotes .whole = false := by
            unfold Field.denotes
            cases found : expression.field.target with
            | error => rfl
            | ok target => exact beq_eq_false_iff_ne.mpr fun same => whole (found.trans (by rw [same]))
          simp [other, fieldOf]
      have mem := mem_filterMap.mpr ⟨projection, member, read⟩
      simp only [mem, true_or]
  all_goals simp only [mem, true_or, or_true]

theorem mem_neededColumns (late : field ∈ block.lateFields) (read : column ∈ field.readColumns) :
    column ∈ block.neededColumns block.placements field.aliasName := by
  refine mem_filter.mpr ⟨column.mem_all, ?_⟩
  rw [Bool.or_eq_true]
  rcases mem_finalFields late with final | whole
  · unfold Field.readColumns at read
    cases target : field.target with
    | error fault => simp [target] at read
    | ok found =>
      cases found with
      | whole =>
        left
        rw [target] at read
        obtain rfl := mem_singleton.mp read
        cases block.elementOf field.aliasName <;> decide
      | column wanted | property pointer =>
        right
        rw [target] at read
        refine List.any_eq_true.mpr ⟨field, final, ?_⟩
        simpa [columnsOf, target] using read
  · left
    rw [Field.readColumns, whole] at read
    obtain rfl := mem_singleton.mp read
    cases block.elementOf field.aliasName <;> decide

theorem mem_everyColumn (present : column.existsOn (block.elementOf aliasName) = true) :
    column ∈ block.everyColumn aliasName :=
  mem_filter.mpr ⟨column.mem_all, present⟩

theorem mem_neededColumns_of_joinKeys (key : column ∈ Column.joinKeys (block.elementOf aliasName)) :
    column ∈ block.neededColumns block.placements aliasName :=
  mem_filter.mpr ⟨column.mem_all, by simp [key]⟩

theorem late_of_mem_finalFields (final : field ∈ block.finalFields block.placements) : field ∈ block.lateFields := by
  simp only [finalFields, mem_append] at final
  rcases final with ((((projected | mem) | mem) | mem) | mem) | mem
  · obtain ⟨projection, member, read⟩ := mem_filterMap.mp projected
    have same : projection.source.fieldOf = field := by
      unfold projectedField? at read
      cases source : projection.source with
      | field target => simpa [source, fieldOf] using read
      | aggregate expression =>
        simp only [source] at read
        split at read
        · simp at read
        · simpa [fieldOf] using read
    rw [← same]
    exact late_projection member
  all_goals simp only [lateFields, mem_append, mem, true_or, or_true]

/-- Where the columns that are read exist, so do those that are needed. -/
theorem existsOn_of_mem_neededColumns (present : ∀ field ∈ block.finalFields block.placements, ∀ column,
      field.target = .ok (.column column) → column.existsOn (block.elementOf field.aliasName) = true)
    (needed : column ∈ block.neededColumns block.placements aliasName) :
    column.existsOn (block.elementOf aliasName) = true := by
  rcases Bool.or_eq_true _ _ ▸ (mem_filter.mp needed).2 with key | read
  · have mem := contains_iff_mem.mp key
    cases element : block.elementOf aliasName <;> rw [element] at mem <;> revert mem <;>
      cases column <;> decide
  · obtain ⟨field, mem, found⟩ := List.any_eq_true.mp read
    simp only [Bool.and_eq_true, beq_iff_eq, contains_iff_mem] at found
    obtain ⟨same, inColumns⟩ := found
    rw [← same]
    unfold columnsOf at inColumns
    split at inColumns
    · exact (mem_filter.mp inColumns).2
    · next named target =>
      obtain rfl := mem_singleton.mp inColumns
      exact present field mem _ target
    · obtain rfl := mem_singleton.mp inColumns
      cases block.elementOf field.aliasName <;> rfl
    · simp at inColumns

/-- An alias that is read as a whole carries its own columns and no others, unless some field names a
column that it does not have. -/
theorem neededColumns_eq_everyColumn (final : field ∈ block.finalFields block.placements)
    (whole : field.target = .ok .whole)
    (present : ∀ other ∈ block.finalFields block.placements, ∀ column, other.target = .ok (.column column) →
        column.existsOn (block.elementOf other.aliasName) = true) :
    block.neededColumns block.placements field.aliasName = block.everyColumn field.aliasName := by
  unfold neededColumns everyColumn Column.ofElement
  refine filter_congr fun column _ => ?_
  rw [Bool.eq_iff_iff]
  constructor
  · intro needed
    exact existsOn_of_mem_neededColumns present (mem_filter.mpr ⟨column.mem_all, needed⟩)
  · intro onElement
    rw [Bool.or_eq_true]
    refine .inr (List.any_eq_true.mpr ⟨field, final, ?_⟩)
    have inColumns : column ∈ block.columnsOf field := by
      rw [columnsOf, whole]
      exact mem_everyColumn onElement
    simpa using inColumns

theorem checkSimilarity_ensures (block : Block σ) (dialect : Dialect) (search : Similarity) :
    Ensures (block.checkSimilarity dialect search) fun vector =>
      vector.search = search ∧ (∃ pointer, search.field.target = .ok (.property pointer)) ∧
        block.elementOf vector.aliasName = .node ∧ vector.aliasName ∈ block.aliases := by
  have metric : Ensures (dialect.checkMetric search.metric) fun _ => True := by
    unfold Dialect.checkMetric
    split <;> simp
  unfold checkSimilarity
  dsimp only
  split
  · next isNode =>
    obtain ⟨binding, found, element⟩ := map_eq_some_iff.mp isNode
    have node : block.elementOf search.field.aliasName = .node := by
      rw [elementOf, found]
      exact element
    simp only [ensures_bind]
    apply search.field.resolve_ensures.imp
    intro target resolved
    split
    · next pointer =>
      split
      · simp
      · simp only [ensures_bind, ensures_ok]
        split
        · simp
        · rw [ensures_bind]
          apply metric.imp
          intro _ _
          exact ⟨rfl, ⟨pointer, resolved⟩, node, mem_aliases_of_binding? found⟩
    · simp
  · simp

/-- Searches stand at the top of filters, and what they search is a property. -/
structure SearchesAtTop (block : Block σ) : Prop where
  filters : ∀ filter ∈ block.filters, filter.predicate.hasNestedSimilarity = false
  having : ∀ predicate ∈ block.having, predicate.containsSimilarity = false
  properties : ∀ search ∈ block.similarities, ∃ pointer, search.field.target = .ok (.property pointer)

section

variable (block : Block σ) (dialect : Dialect)

/-- At most one search is accepted, and it is the one that is found. -/
theorem findSimilarity_ensures : Ensures (block.findSimilarity dialect) fun found =>
      block.SearchesAtTop ∧ block.similarities = found.toList.map VectorSearch.search ∧ ∀ vector ∈ found,
          block.elementOf vector.aliasName = .node ∧ vector.aliasName ∈ block.aliases := by
  unfold findSimilarity
  split
  · simp
  · next unnested =>
    split
    · simp
    · next ungrouped =>
      have filters : ∀ filter ∈ block.filters, filter.predicate.hasNestedSimilarity = false := by
        simpa using unnested
      have having : ∀ predicate ∈ block.having, predicate.containsSimilarity = false := by
        intro predicate found
        rw [mem_def.mp found] at ungrouped
        simpa using ungrouped
      split
      · next none => simp [none, SearchesAtTop.mk filters having]
      · next search single =>
        rw [ensures_map]
        apply (block.checkSimilarity_ensures dialect search).imp
        rintro vector ⟨rfl, property, node⟩
        refine ⟨⟨filters, having, ?_⟩, single, ?_⟩
        · rwa [single, forall_mem_singleton]
        · rintro _ ⟨⟩
          exact node
      · simp

theorem result_analyzeReferences : (block.analyzeReferences dialect).result =
      block.validate >>= fun _ => block.findSimilarity dialect := by
  unfold analyzeReferences
  simp only [enterStage, result_bind, result_logged]
  cases validated : block.validate with
  | error error => rfl
  | ok _ =>
    cases block.findSimilarity dialect with
    | error error => rfl
    | ok found => cases found <;> rfl

theorem analyzeReferences_ensures : Ensures (block.analyzeReferences dialect).result fun found =>
      block.Bound ∧ ∀ vector ∈ found, block.elementOf vector.aliasName = .node ∧ vector.aliasName ∈ block.aliases := by
  rw [result_analyzeReferences, ensures_bind]
  apply block.validate_ensures.imp
  intro _ bound
  apply (block.findSimilarity_ensures dialect).imp
  rintro found ⟨-, -, spec⟩
  exact ⟨bound, spec⟩

end

section

variable (opts : Options)
variable (searched : ∀ found ∈ vector, block.elementOf found.aliasName = .node ∧ found.aliasName ∈ block.aliases)

include searched

theorem walkDecisions_fit : (block.walkDecisions opts vector).Fit block where
  placements := rfl
  now := block.temporal.now_references opts
  id aliasName := mem_everyColumn (by cases block.elementOf aliasName <;> rfl)
  kind aliasName element := mem_everyColumn (by rw [element]; rfl)
  late _ _ _ _ present := mem_everyColumn present
  vector := searched

theorem chainDecisions_fit : (block.chainDecisions opts vector).Fit block := by
  have every := walkDecisions_fit opts searched
  by_cases pruned : block.isPruned = true
  · have carried : (block.chainDecisions opts vector).carried =
        block.neededColumns block.placements := by simp [chainDecisions, pruned]
    refine ⟨rfl, every.now, ?_, ?_, ?_, searched⟩ <;> rw [carried]
    · intro aliasName
      exact mem_neededColumns_of_joinKeys (by cases block.elementOf aliasName <;> decide)
    · intro aliasName element
      exact mem_neededColumns_of_joinKeys (by rw [element]; decide)
    · intro field late column read _
      exact mem_neededColumns late read
  · have carried : (block.chainDecisions opts vector).carried = block.everyColumn := by
      simp [chainDecisions, pruned]
    refine ⟨rfl, every.now, ?_, ?_, ?_, searched⟩ <;> rw [carried]
    · exact every.id
    · exact every.kind
    · exact every.late

end

/-- Counts replace the only hop of a grouped query without a search. -/
theorem counts_spec {placements : List (Option String)} {counts : Counts}
    (found : block.counts placements vector = some counts) :
    ∃ hop, block.traversals = [hop] ∧ counts.nodeAlias = hop.nodeAlias ∧ vector = none ∧
      block.isCollapsible = false := by
  unfold Block.counts at found
  split at found
  · next hop single =>
    split at found
    · next applies =>
      simp only [Bool.and_eq_true, isNone_iff_eq_none] at applies
      obtain ⟨⟨⟨⟨⟨groups, -⟩, -⟩, none⟩, -⟩, -⟩ := applies
      have grouped : block.isGrouped = true := by
        unfold groupsByStart at groups
        split at groups
        · next field fields => simp [isGrouped, fields]
        · simp at groups
      split at found
      · simp at found
      · simp at found
      · obtain rfl := some_inj.mp found
        exact ⟨hop, single, rfl, none, by simp [isCollapsible, grouped]⟩
    · simp at found
  · simp at found

theorem isCollapsible_spec (collapsible : block.isCollapsible = true) :
    isLinearFrom block.start.aliasName block.traversals = true := by
  simp only [isCollapsible, Bool.and_eq_true] at collapsible
  obtain ⟨⟨⟨⟨⟨-, linear⟩, -⟩, -⟩, -⟩, -⟩ := collapsible
  exact linear

theorem chainDecisions_shortcuts (block : Block σ) (opts : Options)
    (vector : Option VectorSearch) : (block.chainDecisions opts vector).Shortcuts block where
  counts _ found := counts_spec found
  collapse := isCollapsible_spec

theorem analyzeReferences_returns {property : Prop}
    (validated : Returns block.validate fun _ => property) (dialect : Dialect) :
    Returns (block.analyzeReferences dialect).result fun _ => property := by
  rw [result_analyzeReferences, returns_bind]
  apply validated.imp
  intro _ holds
  exact returns_all fun _ => holds

/-- The start and each hop of a query name some kinds. -/
structure Kinded (block : Block σ) : Prop where
  start : block.start.kinds ≠ []
  hops : ∀ hop ∈ block.traversals, hop.allKinds ≠ []

theorem checkTraversals_kinds (seen joinable : List String) (traversals : List Traversal) :
    Returns (checkTraversals seen joinable traversals) fun _ => ∀ hop ∈ traversals, hop.allKinds ≠ [] := by
  induction traversals generalizing seen joinable with
  | nil => simp [checkTraversals]
  | cons hop rest ih =>
    have first : Returns (checkTraversal seen joinable hop) fun _ => hop.allKinds ≠ [] := by
      unfold checkTraversal
      rw [returns_bind]
      refine returns_all fun _ => ?_
      split
      · trivial
      · next some =>
        refine returns_all fun _ empty => some ?_
        simpa [Traversal.allKinds] using empty
    rw [checkTraversals, returns_bind]
    apply first.imp
    intro _ kinds
    exact (ih _ _).imp fun _ others => forall_mem_cons.mpr ⟨kinds, others⟩

theorem validate_kinded (block : Block σ) : Returns block.validate fun _ => block.Kinded := by
  have bindings : Returns block.checkBindings fun _ => block.Kinded := by
    unfold checkBindings
    simp only [returns_bind]
    refine returns_all fun _ => ?_
    split
    · trivial
    · next some =>
      simp only [returns_bind]
      refine returns_all fun _ => ?_
      exact (checkTraversals_kinds _ _ _).imp fun _ hops => ⟨by simpa using some, hops⟩
  unfold validate
  simp only [returns_bind]
  apply bindings.imp
  intro _ kinded
  exact returns_all fun _ => returns_all fun _ => returns_all fun _ => kinded

theorem analyzeReferences_kinded (block : Block σ) (dialect : Dialect) :
    Returns (block.analyzeReferences dialect).result fun _ => block.Kinded :=
  analyzeReferences_returns block.validate_kinded dialect

/-- No filter and no condition on groups searches by similarity. -/
structure Unsearched (block : Block σ) : Prop where
  filters : ∀ filter ∈ block.filters, filter.predicate.containsSimilarity = false
  having : ∀ predicate ∈ block.having, predicate.containsSimilarity = false

theorem analyzeReferences_atTop (block : Block σ) (dialect : Dialect) :
    Returns (block.analyzeReferences dialect).result fun found =>
      block.SearchesAtTop ∧ block.similarities = found.toList.map VectorSearch.search := by
  rw [result_analyzeReferences, returns_bind]
  refine returns_all fun _ => (block.findSimilarity_ensures dialect).returns.imp ?_
  rintro found ⟨atTop, single, -⟩
  exact ⟨atTop, single⟩

theorem analyzeReferences_unsearched (block : Block σ) (dialect : Dialect) :
    Returns (block.analyzeReferences dialect).result fun vector => vector = none → block.Unsearched := by
  apply (block.analyzeReferences_atTop dialect).imp
  rintro _ ⟨atTop, unsearched⟩ rfl
  refine ⟨fun filter mem => ?_, atTop.having⟩
  exact Predicate.containsSimilarity_eq_false _ (flatMap_eq_nil_iff.mp unsearched filter mem) (atTop.filters filter mem)

/-- What is logged on the way does not change what the analysis finds. -/
theorem result_analyzeChain (block : Block σ) (opts : Options) : (block.analyzeChain opts).result =
      (block.analyzeReferences opts.dialect).result.map fun vector =>
        let picks := block.chainDecisions opts vector
        (picks, block.chainPlan block.placements vector picks.counts) := by
  unfold analyzeChain
  simp only [enterRoute, enterStage, result_bind, result_logged]
  cases (block.analyzeReferences opts.dialect).result with
  | error error => rfl
  | ok vector =>
    change result _ = .ok _
    split <;> split <;> split <;> split <;> rfl

theorem analyzeChain_of_references {opts : Options}
    (searched : (block.analyzeReferences opts.dialect).result = .ok vector) :
    (block.analyzeChain opts).result = .ok (block.chainDecisions opts vector,
      block.chainPlan block.placements vector (block.chainDecisions opts vector).counts) := by
  rw [result_analyzeChain, searched]
  rfl

theorem references_of_analyzeChain {opts : Options} {picks : Decisions} {plan : Plan}
    (analyzed : (block.analyzeChain opts).result = .ok (picks, plan)) :
    ∃ vector, (block.analyzeReferences opts.dialect).result = .ok vector ∧
      picks = block.chainDecisions opts vector := by
  rw [result_analyzeChain] at analyzed
  cases searched : (block.analyzeReferences opts.dialect).result with
  | error error =>
    rw [searched] at analyzed
    cases analyzed
  | ok vector =>
    rw [searched] at analyzed
    exact ⟨vector, rfl, (congrArg Prod.fst (Except.ok.inj analyzed)).symm⟩

theorem result_analyzeWalk (block : Block σ) (opts : Options) : (block.analyzeWalk opts).result = do
      let vector ← (block.analyzeReferences opts.dialect).result
      block.checkWalk vector.isSome
      let plan ← block.walkPlan block.placements
      return (block.walkDecisions opts vector, plan) := by
  unfold analyzeWalk
  simp only [enterRoute, enterStage, result_bind, result_logged]
  rfl

theorem analyzeChain_ensures (block : Block σ) (opts : Options) :
    Ensures (block.analyzeChain opts).result fun (picks, plan) =>
      block.Bound ∧ picks.Fit block ∧ ∃ vector, picks = block.chainDecisions opts vector ∧
          plan = block.chainPlan block.placements vector picks.counts := by
  rw [result_analyzeChain, ensures_mapOk]
  apply (block.analyzeReferences_ensures opts.dialect).imp
  rintro vector ⟨bound, searched⟩
  exact ⟨bound, chainDecisions_fit opts searched, vector, rfl, rfl⟩

theorem onlyWalk_ensures (isWalk : block.isWalk = true) : Ensures block.onlyWalk fun (hop, walk) =>
      block.traversals = [hop] ∧ hop.walk = some walk := by
  unfold onlyWalk
  split
  · next hop single =>
    split
    · next walk found => exact ⟨single, found⟩
    · next absent => simp [Block.isWalk, single, absent] at isWalk
  · simp

theorem depthRange_ensures (walk : WalkSpec) : Ensures walk.depthRange fun _ => True := by
  have greatest : Ensures walk.greatestDepth fun _ => True := by
    unfold WalkSpec.greatestDepth
    dsimp only
    split
    · simp
    · split
      · simp
      · split <;> simp
  unfold WalkSpec.depthRange
  rw [ensures_bind]
  apply greatest.imp
  intro depth _
  split <;> simp

variable (isWalk : block.isWalk = true)

include isWalk

theorem checkWalk_ensures (hasVector : Bool) : Ensures (block.checkWalk hasVector) fun _ => hasVector = false := by
  unfold checkWalk
  rw [ensures_bind]
  apply (onlyWalk_ensures isWalk).imp
  rintro ⟨hop, walk⟩ -
  dsimp only
  split
  · simp
  · rw [ensures_bind, ensures_discard]
    apply (depthRange_ensures walk).imp
    intro _ _
    cases hasVector <;> simp

theorem walkPlan_ensures (placements : List (Option String)) : Ensures (block.walkPlan placements) fun plan =>
      plan.Asks (!block.orderBy.isEmpty) (block.limit.isSome || block.offset.isSome)
        (!block.groupBy.isEmpty) block.having.isSome := by
  unfold walkPlan
  rw [ensures_bind]
  apply (onlyWalk_ensures isWalk).imp
  rintro ⟨hop, walk⟩ -
  dsimp only
  rw [ensures_bind]
  apply (depthRange_ensures walk).imp
  intro range _
  have rows : ((block.scanPlan placements block.start.aliasName .node).under
      (.expand hop.nodeAlias range.least range.greatest walk.tracksPath)).op.isClause =
      false := rfl
  rw [ensures_pure]
  simpa using block.finishPlan_asks (block.placedAt placements none).length true false rows

theorem analyzeWalk_ensures (opts : Options) : Ensures (block.analyzeWalk opts).result fun (picks, plan) =>
      block.Bound ∧ picks.Fit block ∧ picks.vector = none ∧
        plan.Asks (!block.orderBy.isEmpty) (block.limit.isSome || block.offset.isSome)
          (!block.groupBy.isEmpty) block.having.isSome := by
  rw [result_analyzeWalk, ensures_bind]
  apply (block.analyzeReferences_ensures opts.dialect).imp
  rintro vector ⟨bound, searched⟩
  rw [ensures_bind]
  apply (checkWalk_ensures isWalk vector.isSome).imp
  intro _ none
  rw [ensures_bind]
  apply (walkPlan_ensures isWalk block.placements).imp
  intro plan asks
  exact ⟨bound, walkDecisions_fit opts searched, by simpa [walkDecisions] using none, asks⟩

end Block

end GraphSql
