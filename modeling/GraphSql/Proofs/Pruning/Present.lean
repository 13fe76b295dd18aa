import GraphSql.Proofs.Equivalence.CountSelect
import GraphSql.Proofs.Lowering.Reading

namespace GraphSql

open List Output Predicate Traced

variable {σ : Type}

/-- If the field names a column, then its alias has this column. -/
def Block.Has (block : Block σ) (field : Field) : Prop :=
  ∀ column, field.target = .ok (.column column) → column.existsOn (block.elementOf field.aliasName) = true

namespace Block

variable {block : Block σ} {field : Field}

theorem has_of_whole (found : field.target = .ok .whole) : block.Has field := by
  intro column named
  rw [found] at named
  cases named

theorem has_of_id (found : field.target = .ok (.column .id)) : block.Has field := by
  intro column named
  rw [found] at named
  cases named
  cases block.elementOf field.aliasName <;> rfl

/-- A column that the final SELECT reads exists. -/
theorem has_of_readIn {env : Setting} {picks : Decisions}
    (readIn : field.ReadIn (block.chainOutput env picks).scope) : block.Has field := by
  intro column named
  obtain ⟨term, served⟩ := readIn column named
  have checked : Returns ((block.relations env picks).column field.aliasName column)
      fun _ => column.existsOn (block.elementOf field.aliasName) = true := by
    unfold Relations.column
    rw [returns_bind]
    apply ((block.relations env picks).lookup_ensures field.aliasName).returns.imp
    rintro carried ⟨mem, name⟩
    obtain ⟨-, -, same⟩ := mem_relations mem
    rw [same, name]
    unfold checkColumn
    split
    · next present => exact returns_all fun _ => present
    · trivial
  exact checked.of_ok served

end Block

namespace Predicate

variable {scope : Scope}

/-- A predicate is lowered only where the scope has its fields, but for those that are searched. -/
theorem readIn_of_lower_atTop (dialect : Dialect) (predicate : Predicate Nested)
    (unnested : predicate.hasNestedSimilarity = false)
    (searched : ∀ search ∈ predicate.topSimilarities, search.field.ReadIn scope) :
    Returns (lower dialect scope predicate).result fun _ => ∀ field ∈ predicate.fields, field.ReadIn scope := by
  induction predicate with
  | similarity search =>
    refine returns_all fun _ => ?_
    simpa [fields, topSimilarities] using searched
  | and operands ih =>
    simp only [hasNestedSimilarity, hasNestedSimilarityIn_eq_any, any_eq_false, Bool.not_eq_true] at unnested
    rw [topSimilarities, topSimilaritiesOf_eq_flatMap, forall_mem_flatMap] at searched
    simp only [fields, fieldsOf_eq_flatMap, forall_mem_flatMap]
    exact (lower_shows fun operand mem => ih operand mem (unnested operand mem) (searched operand mem)).1
  | _ => exact readIn_of_lower dialect _ (containsSimilarity_eq_false _ (by simp [topSimilarities]) unnested)

end Predicate

namespace Block

theorem groupsByStart_id {block : Block σ} (groups : block.groupsByStart = true) :
    ∀ field ∈ block.groupBy, field.target = .ok (.column .id) := by
  unfold groupsByStart at groups
  split at groups
  · next field single =>
    rw [single, forall_mem_singleton]
    simp only [Bool.and_eq_true] at groups
    exact Field.target_of_denotes groups.2
  · simp at groups

/-- The fields that are selected beside a projection exist. -/
def SelectsPresent (block : Block σ) : Prop :=
  block.projection ≠ [] → ∀ chosen ∈ block.selectedFields, block.Has chosen.field

section Select

variable {block : Block Nested} {output : Output}

/-- The last predicates are lowered only where the scope has their fields. -/
def PlacedReadIn (block : Block Nested) (dialect : Dialect) (scope : Scope) : Prop :=
  Returns (lowerAll dialect scope (block.placedAt block.placements none)).result
    fun _ => ∀ field ∈ fieldsOf (block.placedAt block.placements none), field.ReadIn scope

theorem placedReadIn {dialect : Dialect} {scope : Scope} (each : ∀ filter ∈ block.filters,
      Returns (filter.predicate.lower dialect scope).result fun _ =>
        ∀ field ∈ filter.predicate.fields, field.ReadIn scope) : block.PlacedReadIn dialect scope := by
  simp only [PlacedReadIn, fieldsOf_eq_flatMap, forall_mem_flatMap]
  apply lowerAll_shows
  intro predicate placed
  obtain ⟨filter, mem, rfl, -⟩ := placedAt_spec placed
  exact each filter mem

/-- Searches at the top of filters are not looked up, and they need no column. -/
theorem SearchesAtTop.readIn (atTop : block.SearchesAtTop) (dialect : Dialect) {scope : Scope} :
    block.PlacedReadIn dialect scope := by
  refine placedReadIn fun filter mem => ?_
  refine readIn_of_lower_atTop dialect _ (atTop.filters filter mem) fun search searched => ?_
  obtain ⟨pointer, found⟩ := atTop.properties search (mem_flatMap.mpr ⟨filter, mem, searched⟩)
  exact Field.readIn_of_property found

theorem Unsearched.readIn (unsearched : block.Unsearched) (dialect : Dialect) {scope : Scope} :
    block.PlacedReadIn dialect scope :=
  placedReadIn fun filter mem => readIn_of_lower dialect _ (unsearched.filters filter mem)

section Clauses

variable (reads : ∀ field, field.ReadIn output.scope → block.Has field)

include reads

theorem has_of_columns (computed : ∀ entry ∈ block.projection.zipIdx, (output.computed entry.2).isSome = true →
      block.Has entry.1.source.fieldOf)
    (selects : block.SelectsPresent) :
    Returns (output.columns block) fun _ =>
      (∀ projection ∈ block.projection, block.Has projection.source.fieldOf) ∧
        ∀ chosen ∈ block.selectedFields, block.Has chosen.field := by
  by_cases projection : block.projection = []
  · unfold Output.columns selectedFields
    rw [projection]
    cases block.selected with
    | none => exact returns_all fun _ => by simp
    | some selected =>
      apply (readIn_of_selectedColumns selected).imp
      intro _ readIn
      exact ⟨by simp, fun chosen mem => reads _ (readIn chosen mem)⟩
  · rw [columns_of_projection _ projection]
    apply (readIn_of_uncomputed block.projection 0).imp
    intro _ readIn
    refine ⟨fun projected mem => ?_, selects projection⟩
    obtain ⟨entry, indexed, rfl⟩ := mem_map.mp ((zipIdx_map_fst 0 block.projection).symm ▸ mem)
    cases found : output.computed entry.2 with
    | none => exact reads _ (readIn entry indexed found)
    | some term => exact computed entry indexed (by rw [found]; rfl)

theorem has_of_having (dialect : Dialect)
    (ungrouped : ∀ predicate ∈ block.having, predicate.containsSimilarity = false) :
    Returns (output.having dialect block.having).result fun _ => ∀ field ∈ block.havingFields, block.Has field := by
  unfold havingFields
  cases found : block.having with
  | none => exact returns_all fun _ => by simp
  | some predicate =>
    simp only [Output.having, result_bind, result_pure, returns_bind]
    apply (readIn_of_lower dialect predicate (ungrouped predicate found)).imp
    intro _ readIn field mem
    exact reads _ (readIn field mem)

theorem has_of_orderBy : Returns (output.orderBy block.orderBy) fun _ =>
      ∀ order ∈ block.orderBy, block.Has order.field := by
  have keys : Returns (output.sortKeys block.orderBy) fun _ => ∀ order ∈ block.orderBy, block.Has order.field := by
    apply (readIn_of_sortKeys block.orderBy).imp
    intro _ readIn order mem
    exact reads _ (readIn order mem)
  unfold Output.orderBy
  split
  · simp only [returns_bind, returns_pure]
    exact returns_all fun _ => keys
  · simpa using keys

/-- A final SELECT is made only if the columns that it reads exist. The clauses that are computed
before are not made again. -/
theorem has_of_clauses (isGrouped : Bool) {dialect : Dialect} {α : Type}
    {finish : List OutputColumn → Conditions → List Term → Option (Condition Statement) → List SortKey → α}
    (computed : ∀ entry ∈ block.projection.zipIdx, (output.computed entry.2).isSome = true →
      block.Has entry.1.source.fieldOf)
    (selects : block.SelectsPresent)
    (placed : block.PlacedReadIn dialect output.scope)
    (ungrouped : ∀ predicate ∈ block.having, predicate.containsSimilarity = false)
    (replaced : isGrouped = false → (∀ field ∈ block.groupBy, block.Has field) ∧ block.having = none) :
    Returns (do
      let columns ← output.columns block
      let conditions ← (lowerAll dialect output.scope (block.placedAt block.placements none)).result
      let groupBy ← (if isGrouped then output.groupBy block.groupBy else pure [])
      let having ← (if isGrouped then (output.having dialect block.having).result else pure none)
      let orderBy ← output.orderBy block.orderBy
      return finish columns conditions groupBy having orderBy) fun _ =>
        ∀ field ∈ block.lateFields, block.Has field := by
  have groupBy : Returns (if isGrouped then output.groupBy block.groupBy else pure []) fun _ =>
      ∀ field ∈ block.groupBy, block.Has field := by
    cases isGrouped with
    | true =>
      apply (readIn_of_groupBy block.groupBy).imp
      intro _ readIn field mem
      exact reads _ (readIn field mem)
    | false => exact (replaced rfl).1
  have having : Returns (if isGrouped then (output.having dialect block.having).result else pure none) fun _ =>
        ∀ field ∈ block.havingFields, block.Has field := by
    cases isGrouped with
    | true => exact has_of_having reads dialect ungrouped
    | false =>
      rw [havingFields, (replaced rfl).2]
      simp
  simp only [returns_bind]
  apply (has_of_columns reads computed selects).imp
  rintro _ ⟨ofProjection, ofSelected⟩
  apply placed.imp
  intro _ ofPlaced
  apply groupBy.imp
  intro _ ofGroupBy
  apply having.imp
  intro _ ofHaving
  apply (has_of_orderBy reads).imp
  intro _ ofOrderBy field late
  simp only [lateFields, mem_append, mem_map] at late
  rcases late with ((((⟨projection, mem, rfl⟩ | grouped) | having) | ⟨order, mem, rfl⟩) |
    ⟨chosen, mem, rfl⟩) | filtered
  · exact ofProjection projection mem
  · exact ofGroupBy field grouped
  · exact ofHaving field having
  · exact ofOrderBy order mem
  · exact ofSelected chosen mem
  · exact reads _ (ofPlaced field (by rwa [fieldsOf_eq_flatMap]))

end Clauses

variable {env : Setting} {picks : Decisions}

/-- The clauses that counts replace read nothing but ids, and replace aggregates only. -/
structure CountsReadIds (block : Block Nested) (env : Setting) (picks : Decisions) : Prop where
  projection : ∀ entry ∈ block.projection.zipIdx, (block.countTerm env picks entry.2).isSome = true →
      ∃ expression, entry.1.source = .aggregate expression ∧ block.Has expression.field
  groupBy : picks.counts ≠ none → ∀ field ∈ block.groupBy, block.Has field
  having : picks.counts ≠ none → block.having = none

theorem countsReadIds_of_uncounted (uncounted : picks.counts = none) : block.CountsReadIds env picks := by
  refine ⟨fun entry _ computed => ?_, by simp [uncounted], by simp [uncounted]⟩
  simp [countTerm_eq_none uncounted] at computed

theorem countsReadIds_of_analyzeChain {opts : Options} {plan : Plan}
    (analyzed : (block.analyzeChain opts).result = .ok (picks, plan)) (env : Setting) :
    block.CountsReadIds env picks := by
  cases found : picks.counts with
  | none => exact countsReadIds_of_uncounted found
  | some counts =>
    obtain ⟨hop, counted⟩ := counted_of_analyzeChain analyzed found
    refine ⟨fun entry indexed computed => ?_, fun _ field mem => ?_, fun _ => counted.having⟩
    · rcases countColumns_spec counted.columns entry indexed with ⟨-, absent⟩ | ⟨distinct, role, -⟩
      · simp [counted.countTerm_eq_none absent] at computed
      · obtain ⟨expression, source, -, -, -, whole | id⟩ := countRole_count role
        · exact ⟨expression, source, has_of_whole (Field.target_of_denotes whole)⟩
        · exact ⟨expression, source, has_of_id (Field.target_of_denotes id)⟩
    · exact has_of_id (groupsByStart_id counted.groupBy field mem)

theorem has_of_chainSelect (placements : picks.placements = block.placements)
    (placed : block.PlacedReadIn env.opts.dialect (block.chainOutput env picks).scope)
    (ungrouped : ∀ predicate ∈ block.having, predicate.containsSimilarity = false)
    (ids : block.CountsReadIds env picks) (selects : block.SelectsPresent) :
    Returns (block.chainSelect env picks).result fun _ => ∀ field ∈ block.lateFields, block.Has field := by
  rw [result_chainSelect]
  simp only [lowerPlaced, placements]
  have computed : ∀ entry ∈ block.projection.zipIdx, (block.countTerm env picks entry.2).isSome = true →
        block.Has entry.1.source.fieldOf := by
    intro entry indexed counted
    obtain ⟨expression, source, has⟩ := ids.projection entry indexed counted
    rwa [source]
  refine has_of_clauses (fun _ => has_of_readIn) _ computed selects placed ungrouped ?_
  intro counted
  have replaced : picks.counts ≠ none := fun absent => by simp [absent] at counted
  exact ⟨ids.groupBy replaced, ids.having replaced⟩

/-- A chain that is analyzed is compiled only if the columns that its final SELECT reads exist. -/
theorem has_of_chainLevel {opts : Options} {plan : Plan}
    (analyzed : (block.analyzeChain opts).result = .ok (picks, plan))
    (selects : block.SelectsPresent) :
    Returns (block.chainLevel env picks).result fun _ => ∀ field ∈ block.lateFields, block.Has field := by
  have atTop : block.SearchesAtTop := by
    obtain ⟨_, references, -⟩ := references_of_analyzeChain analyzed
    exact ((block.analyzeReferences_atTop opts.dialect).of_ok references).1
  have placements := ((block.analyzeChain_ensures opts).of_ok analyzed).2.1.placements
  have ids := countsReadIds_of_analyzeChain analyzed env
  unfold chainLevel
  simp only [result_bind, returns_bind]
  refine returns_all fun _ => returns_all fun _ => ?_
  apply (has_of_chainSelect placements (atTop.readIn _) atTop.having ids selects).imp
  intro _ has
  exact has

end Select

end Block

end GraphSql
