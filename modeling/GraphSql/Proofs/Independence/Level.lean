import GraphSql.Proofs.Independence.Hop
import GraphSql.Proofs.Lowering.ChainSelect

namespace GraphSql

open Function List Traced Traversal

variable {σ τ υ ι : Type}

/-- Both searches add the same to a row set, but for values. -/
structure VectorParts.Alike (text : Statement → υ) (first second : VectorParts) : Prop where
  joins : second.joins = first.joins
  columns : second.columns.map OutputColumn.blank = first.columns.map OutputColumn.blank
  conditions : second.conditions.map (Condition.outline text) = first.conditions.map (Condition.outline text)

/-- The searched vector and the least score do not show, but whether there is a least score does. -/
theorem VectorSearch.parts_revise (text : Statement → υ) (revision : Revision σ τ)
    (vector : VectorSearch) : vector.parts.Alike text (vector.revise revision).parts where
  joins := rfl
  columns := rfl
  conditions := by
    cases found : vector.search.minScore <;>
      simp [parts, revise, Similarity.revise, found, Condition.outline, Term.blank]

theorem Decisions.vectorParts_revise (text : Statement → υ) (revision : Revision σ τ)
    (picks : Decisions) (now : Option Term) (aliasName : String) :
    (picks.vectorParts aliasName).Alike text ((picks.revise revision now).vectorParts aliasName) := by
  unfold vectorParts
  cases found : picks.vector with
  | none =>
    simp only [revise, found, Option.map_none]
    exact ⟨rfl, rfl, rfl⟩
  | some vector =>
    have aliased : (vector.revise revision).aliasName = vector.aliasName := rfl
    simp only [revise, found, Option.map_some, aliased]
    split
    · exact vector.parts_revise text revision
    · exact ⟨rfl, rfl, rfl⟩

theorem Setting.Alike.rowSetName {env changed : Setting} (envs : env.Alike changed) :
    changed.rowSetName = env.rowSetName := by
  funext aliasName
  simp only [Setting.rowSetName, envs.tag]

namespace Block

variable {block : Block ι} {picks : Decisions} {now : Option Term} {env changed : Setting}

theorem handedColumns_revise (revision : Revision ι Nested) (hop : Traversal) :
    handedColumns (picks.revise revision now) (hop.revise revision) = handedColumns picks hop := rfl

theorem hopSource_revise (first : ι → Nested) (envs : env.Alike changed)
    (revision : Revision ι Nested) (hop : Traversal) :
    (block.revise revision).hopSource changed (picks.revise revision now) (hop.revise revision) =
      (block.revise (.plain first)).hopSource env picks hop := by
  simp only [hopSource, envs.rowSetName]
  rfl

theorem isJoinedLater_revise (revision : Revision ι Nested) (hop : Traversal) (later : List Traversal) :
    isJoinedLater (hop.revise revision) (later.map (Traversal.revise revision)) = isJoinedLater hop later := by
  simp [isJoinedLater, Traversal.revise, comp_def]

@[simp] theorem lastAlias_revise (revision : Revision σ τ) {block : Block σ} :
    (block.revise revision).lastAlias = block.lastAlias := by
  simp [lastAlias, revise, Traversal.revise, comp_def, Start.revise]

section

variable (envs : env.Alike changed) (revision : Revision σ τ) {block : Block σ}

include envs

theorem relations_revise : (block.revise revision).relations changed picks = block.relations env picks := by
  simp [relations, readFrom, envs.rowSetName]

theorem countTerm_revise : (block.revise revision).countTerm changed picks = block.countTerm env picks := by
  funext index
  have optional : (block.revise revision).traversals.head?.map Traversal.optional =
      block.traversals.head?.map Traversal.optional := by
    simp [revise, Traversal.revise, comp_def]
  simp only [countTerm, envs.rowSetName, optional]

theorem chainOutput_revise : (block.revise revision).chainOutput changed picks = block.chainOutput env picks := by
  simp [chainOutput, relations_revise envs, countTerm_revise envs]

end

theorem chainOutput_reviseDecisions (revision : Revision σ τ) :
    block.chainOutput env (picks.revise revision now) = block.chainOutput env picks := by
  have nearest : ((picks.revise revision now).vector.map fun vector =>
      (vector.aliasName, vector.search.count)) =
        picks.vector.map fun vector => (vector.aliasName, vector.search.count) := by
    simp only [Decisions.revise, Option.map_map]
    rfl
  simp only [chainOutput, nearest]
  rfl

theorem rowSetJoins_revise (envs : env.Alike changed) (revision : Revision ι Nested) :
    (block.revise revision).traversals.map (rowSetJoin changed (picks.revise revision now)) =
      block.traversals.map (rowSetJoin env picks) := by
  simp only [revise, map_map]
  refine map_congr_left fun hop _ => ?_
  simp only [comp, rowSetJoin, Setting.hopName, envs.rowSetName]
  rfl

theorem traversals_revise_plain (first : ι → Nested) : (block.revise (.plain first)).traversals = block.traversals := by
  rw [revise_plain]
  rfl

end Block

variable (output : Output)

namespace Output

@[simp] theorem columns_revise (revision : Revision σ τ) (block : Block σ) :
    output.columns (block.revise revision) = output.columns block := rfl

@[simp] theorem bounds_revise (revision : Revision σ τ) (block : Block σ) :
    output.bounds (block.revise revision) = output.bounds block := rfl

theorem having_masked {text : Statement → τ} {rename : String → String} {first second : ι → Nested}
    (dialect : Dialect) (having : Option (Predicate ι))
    (alike : ∀ inner ∈ having.toList.flatMap Predicate.nested, (first inner).Alike text (second inner)) :
    AgreeOn (Option.map (Condition.outline text))
      (output.having dialect (having.map (Predicate.revise (.plain first)))).result
      (output.having dialect (having.map (Predicate.revise (.masking rename second)))).result := by
  cases having with
  | none => exact rfl
  | some predicate =>
    simp only [Option.map_some, Output.having, result_bind, result_pure]
    refine (predicate.lower_masked dialect output.aggregateScope fun inner mem =>
      alike inner (by simpa using mem)).bind fun condition other same => ?_
    exact congrArg some same

end Output

variable {text : Statement → τ} {rename : String → String} {first second : ι → Nested} {mask : Revision ι Nested}
variable {block : Block ι} {picks : Decisions} {now : Option Term} {env changed : Setting}
variable (envs : env.Alike changed)
variable (alike : ∀ inner ∈ block.nested, (first inner).Alike text (second inner))
variable (masks : mask = .masking rename second)
variable (moments : now.map Term.blank = picks.now.map Term.blank)

namespace Block

open RowSet

include envs alike masks

theorem chainSelect_masked : AgreeOn (Select.outline text) ((block.revise (.plain first)).chainSelect env picks).result
      ((block.revise mask).chainSelect changed (picks.revise mask now)).result := by
  subst masks
  have having : AgreeOn (Option.map (Condition.outline text)) (if picks.counts.isNone then
        ((block.chainOutput env picks).having env.opts.dialect
          (block.revise (.plain first)).having).result else pure none)
      (if picks.counts.isNone then
        ((block.chainOutput env picks).having env.opts.dialect
          (block.revise (.masking rename second)).having).result else pure none) := by
    split
    · exact Output.having_masked _ _ block.having fun inner mem => alike inner (mem_append_right _ mem)
    · exact rfl
  have counts : (picks.revise (.masking rename second) now).counts = picks.counts := rfl
  have collapse : (picks.revise (.masking rename second) now).collapse = picks.collapse := rfl
  rw [result_chainSelect, result_chainSelect]
  simp only [chainOutput_revise envs, chainOutput_revise env.alike_refl,
    chainOutput_reviseDecisions, envs.dialect, Output.columns_revise, Output.bounds_revise, counts,
    collapse, envs.rowSetName, lastAlias_revise, aliasName_revise, rowSetJoins_revise envs,
    traversals_revise_plain]
  refine agree_bind_same fun columns => ?_
  refine (lowerPlaced_masked alike _ _ none).bind fun conditions others same => ?_
  refine agree_bind_same fun groupBy => ?_
  refine having.bind fun condition other sameHaving => ?_
  refine agree_bind_same fun orderBy => ?_
  simp [Select.outline, same, sameHaving]

include moments

theorem startRowSet_masked : AgreeOn (outline text) ((block.revise (.plain first)).startRowSet env picks).result
      ((block.revise mask).startRowSet changed (picks.revise mask now)).result := by
  subst masks
  have vector := picks.vectorParts_revise text (.masking rename second) now block.start.aliasName
  simp only [startRowSet, result_bind, result_pure, envs.dialect]
  refine (lowerPlaced_masked alike _ block.startScope (some block.start.aliasName)).bind
    fun conditions others same => ?_
  simp [outline, Select.outline, envs.rowSetName, outline_startConditions env.graphId,
    outline_visibility first moments, vector.joins, vector.columns, vector.conditions, same]

theorem hopRowSet_masked (hop : Traversal) (later : List Traversal) : AgreeOn (outline text)
      ((block.revise (.plain first)).hopRowSet env picks hop later).result
      ((block.revise mask).hopRowSet changed (picks.revise mask now) (hop.revise mask)
        (later.map (Traversal.revise mask))).result := by
  subst masks
  have vector := picks.vectorParts_revise text (.masking rename second) now hop.nodeAlias
  simp only [hopRowSet, result_bind, result_pure, envs.dialect]
  refine (hopConditions_masked alike moments _ hop).bind fun conditions others same => ?_
  simp only [agree_ok, outline, Select.outline, map_cons, map_nil, map_append,
    envs.rowSetName, nodeAlias_revise, edgeAlias_revise,
    joinFrom_revise, isJoinedLater_revise, handedColumns_revise,
    hopSource_revise first envs, tableColumns_revise, tableColumns_reviseDecisions,
    hop.outline_joins text env.graphId, vector.joins, vector.columns, vector.conditions, same]
  rfl

theorem countRowSet_masked (hop : Traversal) (counts : Counts) : AgreeOn (outline text)
      ((block.revise (.plain first)).countRowSet env picks hop counts).result
      ((block.revise mask).countRowSet changed (picks.revise mask now) (hop.revise mask) counts).result := by
  subst masks
  have kinds : ∀ revision : Revision ι Nested,
      (Condition.kindIs hop.direction.near.kind (block.revise revision).start.kinds).outline text =
        (Condition.kindIs hop.direction.near.kind block.start.kinds).outline text :=
    fun revision => Condition.outline_kindIs text revision.kind _ _
  simp only [countRowSet, result_bind, result_pure, envs.dialect]
  refine (hopConditions_masked alike moments _ hop).bind fun conditions others same => ?_
  simp only [agree_ok, outline, Select.outline, map_cons, map_nil, map_append,
    envs.rowSetName, direction_revise, aliasName_revise, kinds, same]
  rfl

theorem hopRowSets_masked (hops : List Traversal) : AgreeOn (List.map (outline text))
      ((block.revise (.plain first)).hopRowSets env picks hops).result
      ((block.revise mask).hopRowSets changed (picks.revise mask now) (hops.map (Traversal.revise mask))).result := by
  induction hops with
  | nil => exact rfl
  | cons hop later ih =>
    have counts : (picks.revise mask now).counts = picks.counts := rfl
    have here : AgreeOn (outline text) ((block.revise (.plain first)).rowSetOf env picks hop later).result
        ((block.revise mask).rowSetOf changed (picks.revise mask now) (hop.revise mask)
          (later.map (Traversal.revise mask))).result := by
      unfold rowSetOf
      rw [counts, nodeAlias_revise]
      split
      · split
        · exact countRowSet_masked envs alike masks moments hop _
        · exact hopRowSet_masked envs alike masks moments hop later
      · exact hopRowSet_masked envs alike masks moments hop later
    rw [map_cons, result_hopRowSets_cons, result_hopRowSets_cons]
    refine here.bind fun rowSet other same => ih.bind fun rest others sameRest => ?_
    simp [same, sameRest]

theorem chainLevel_masked : AgreeOn (Level.outline text) ((block.revise (.plain first)).chainLevel env picks).result
      ((block.revise mask).chainLevel changed (picks.revise mask now)).result := by
  simp only [chainLevel, result_bind, result_pure, traversals_revise_plain]
  refine (startRowSet_masked envs alike masks moments).bind fun start otherStart sameStart => ?_
  refine (hopRowSets_masked envs alike masks moments block.traversals).bind fun hops otherHops sameHops => ?_
  refine (chainSelect_masked envs alike masks).bind fun select other same => ?_
  simp [Level.outline, sameStart, sameHops, same]

end Block

namespace Walk

open Block Select

/-- The walk along the hop with other kinds. -/
def revise (revision : Revision σ τ) (walk : Walk) : Walk := { walk with hop := walk.hop.revise revision }

@[simp] theorem hop_revise (revision : Revision σ τ) (walk : Walk) :
    (walk.revise revision).hop = walk.hop.revise revision := rfl

/-- Kinds that two lists have in common are still common after an injective renaming. -/
theorem filter_contains_map {rename : String → String} (injective : Injective rename) (kinds others : List String) :
    (kinds.map rename).filter (others.map rename).contains = (kinds.filter others.contains).map rename := by
  have contains : ∀ kind, (others.map rename).contains (rename kind) = others.contains kind := by
    intro kind
    rw [Bool.eq_iff_iff, contains_iff_mem, contains_iff_mem, mem_map]
    constructor
    · rintro ⟨other, mem, same⟩
      rwa [← injective same]
    · exact fun mem => ⟨kind, mem, rfl⟩
  simp only [filter_map, comp_def, contains]

section

variable {revision : Revision σ τ} (text : Statement → υ)
variable (injective : Injective revision.kind)
include injective

theorem outline_loopGuards (hop : Traversal) : (loopGuards (hop.revise revision)).map (Condition.outline text) =
      (loopGuards hop).map (Condition.outline text) := by
  have both : (hop.revise revision).inverseEdgeKinds.filter (hop.revise revision).edgeKinds.contains =
      (hop.inverseEdgeKinds.filter hop.edgeKinds.contains).map revision.kind :=
    filter_contains_map injective _ _
  simp only [loopGuards, both, isEmpty_map]
  split
  · rfl
  · simp [Condition.outline, Condition.outlineAll_eq_map, edgeKindIs, Condition.outline_kindIs]

/-- The steps go along the same hops, with guards of the same outline. -/
theorem outline_steps (strategy : WalkStrategy) (hop : Traversal) :
    ((steps strategy (hop.revise revision)).map fun (along, guards) => (along, guards.map (Condition.outline text))) =
      (steps strategy hop).map fun (along, guards) => (along.revise revision, guards.map (Condition.outline text)) := by
  cases strategy with
  | oneMember => rfl
  | manyMembers =>
    simp only [steps, isEmpty_edgeKinds_revise, isEmpty_inverseEdgeKinds_revise, map_append]
    congr 1
    · split <;> rfl
    · split
      · rfl
      · simp only [map_cons, map_nil, outline_loopGuards text injective]
        rfl

end

theorem rowSetName_alike (envs : env.Alike changed) : rowSetName changed = rowSetName env := by
  simp only [rowSetName, envs.tag]

variable (walk : Walk)
include envs alike masks

theorem select_masked : AgreeOn (outline text) (walk.select (block.revise (.plain first)) env picks).result
      ((walk.revise mask).select (block.revise mask) changed (picks.revise mask now)).result := by
  subst masks
  have relations : (walk.revise (.masking rename second)).relations
      (block.revise (.masking rename second)) changed (picks.revise (.masking rename second) now) =
        walk.relations (block.revise (.plain first)) env picks := by
    simp only [Walk.relations, rowSetName_alike envs]
    rfl
  simp only [select, result_bind, result_pure, envs.dialect, relations, hop_revise,
    aliasName_revise, nodeAlias_revise, Output.columns_revise, Output.bounds_revise,
    rowSetName_alike envs]
  refine agree_bind_same fun columns => ?_
  refine (lowerPlaced_masked alike _ _ none).bind fun conditions others same => ?_
  refine agree_bind_same fun groupBy => ?_
  refine (Output.having_masked _ _ block.having fun inner mem =>
    alike inner (mem_append_right _ mem)).bind fun condition other sameHaving => ?_
  refine agree_bind_same fun orderBy => ?_
  simp only [agree_ok, outline, map_append, same, sameHaving]
  rfl

include moments

theorem startMember_masked : AgreeOn (outline text) (walk.startMember (block.revise (.plain first)) env picks).result
      ((walk.revise mask).startMember (block.revise mask) changed (picks.revise mask now)).result := by
  subst masks
  simp only [startMember, result_bind, result_pure, envs.dialect]
  refine (lowerPlaced_masked alike _ block.startScope (some block.start.aliasName)).bind
    fun conditions others same => ?_
  simp only [agree_ok, outline, map_append, aliasName_revise, tableColumns_revise, tableColumns_reviseDecisions,
    outline_startConditions env.graphId, now_reviseDecisions,
    outline_visibility first moments, same]
  rfl

theorem stepMember_masked (hop : Traversal) {guards others : Conditions}
    (same : others.map (Condition.outline text) = guards.map (Condition.outline text)) :
    AgreeOn (outline text) (walk.stepMember (block.revise (.plain first)) env picks hop guards).result
      ((walk.revise mask).stepMember (block.revise mask) changed (picks.revise mask now)
        (hop.revise mask) others).result := by
  subst masks
  simp only [stepMember, result_bind, result_pure, envs.dialect]
  refine (hopConditions_masked alike moments _ hop).bind fun conditions placed samePlaced => ?_
  simp only [agree_ok, outline, map_append, aliasName_revise,
    tableColumns_revise, tableColumns_reviseDecisions, rowSetName_alike envs,
    nodeAlias_revise, hop.outline_joins text env.graphId, same, samePlaced]
  rfl

theorem stepMembers_masked {steps others : List (Traversal × Conditions)}
    (same : (others.map fun (along, guards) => (along, guards.map (Condition.outline text))) =
      steps.map fun (along, guards) => (along.revise mask, guards.map (Condition.outline text))) :
    AgreeOn (List.map (outline text)) (walk.stepMembers (block.revise (.plain first)) env picks steps).result
      ((walk.revise mask).stepMembers (block.revise mask) changed (picks.revise mask now) others).result := by
  induction steps generalizing others with
  | nil =>
    obtain rfl : others = [] := by simpa using same
    exact rfl
  | cons step rest ih =>
    cases others with
    | nil => simp at same
    | cons other furtherSteps =>
      obtain ⟨along, guards⟩ := step
      obtain ⟨otherAlong, otherGuards⟩ := other
      simp only [map_cons, List.cons.injEq, Prod.mk.injEq] at same
      obtain ⟨⟨rfl, sameGuards⟩, sameRest⟩ := same
      simp only [stepMembers, result_bind, result_pure]
      refine (stepMember_masked envs alike masks moments walk along sameGuards).bind
        fun mem other sameMember => ?_
      refine (ih sameRest).bind fun members others sameMembers => ?_
      simp [sameMember, sameMembers]

end Walk

namespace Block

theorem walk_revise (revision : Revision σ τ) (block : Block σ) :
    (block.revise revision).walk = block.walk.map (Walk.revise revision) := by
  unfold walk
  rw [onlyWalk_revise]
  cases block.onlyWalk with
  | error error => rfl
  | ok found =>
    obtain ⟨hop, walk⟩ := found
    simp only [Except.map, bind, Except.bind]
    cases walk.depthRange <;> rfl

include envs alike masks moments

theorem walkLevel_masked (injective : Injective mask.kind) : AgreeOn (Level.outline text)
      ((block.revise (.plain first)).walkLevel env picks).result
      ((block.revise mask).walkLevel changed (picks.revise mask now)).result := by
  have plain : (block.revise (.plain first)).walk = block.walk := by
    rw [revise_plain]
    rfl
  have walks : Agree (fun walk other => other = walk.revise mask)
      (block.revise (.plain first)).walk (block.revise mask).walk := by
    rw [plain, walk_revise]
    cases block.walk with
    | ok walk => exact rfl
    | error error => trivial
  simp only [walkLevel, result_bind, result_pure, envs.dialect]
  refine walks.bind fun walk other revised => ?_
  subst revised
  refine (walk.startMember_masked envs alike masks moments).bind fun start otherStart sameStart => ?_
  refine (walk.stepMembers_masked envs alike masks moments
    (Walk.outline_steps text injective _ walk.hop)).bind fun members others sameMembers => ?_
  refine (walk.select_masked envs alike masks).bind fun select other same => ?_
  simp [Level.outline, RowSet.outline, Walk.rowSetName_alike envs, sameStart, sameMembers, same]

end Block

end GraphSql
