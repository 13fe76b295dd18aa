import GraphSql.Proofs.Analysis
import GraphSql.Proofs.Spelling.Basic

namespace GraphSql

open Function List Predicate Spelling

variable {σ τ : Type}

/-- Another way to write fields, and what is put in the place of values, kinds and nested queries. -/
structure Edit (σ τ : Type) extends Spelling, Revision σ τ

namespace Edit

def ofRevision (revision : Revision σ τ) : Edit σ τ := ⟨.same, revision⟩

def ofSpelling (spelling : Spelling) (nested : σ → τ) : Edit σ τ := ⟨spelling, .plain nested⟩

end Edit

def Similarity.edited (edit : Edit σ τ) (search : Similarity) : Similarity :=
  (search.respell edit.toSpelling).revise edit.toRevision

def Predicate.edited (edit : Edit σ τ) (predicate : Predicate σ) : Predicate τ :=
  (predicate.respell edit.toSpelling id).revise edit.toRevision

def Filter.edited (edit : Edit σ τ) (filter : Filter σ) : Filter τ :=
  (filter.respell edit.toSpelling id).revise edit.toRevision

def Block.edited (edit : Edit σ τ) (block : Block σ) : Block τ :=
  (block.respell edit.toSpelling id).revise edit.toRevision

section Instances

variable (revision : Revision σ τ) (spelling : Spelling) (nested : σ → τ)

theorem Predicate.edited_ofSpelling (predicate : Predicate σ) :
    predicate.edited (.ofSpelling spelling nested) = predicate.respell spelling nested :=
  (revise_plain nested _).trans (map_respell spelling id nested predicate)

theorem Block.edited_ofSpelling (block : Block σ) :
    block.edited (.ofSpelling spelling nested) = block.respell spelling nested :=
  (revise_plain nested _).trans (map_respell spelling id nested block)

theorem Block.edited_ofRevision (block : Block σ) : block.edited (.ofRevision revision) = block.revise revision :=
  congrArg (revise revision) block.respell_same

end Instances

variable {edit : Edit σ τ}

namespace Predicate

@[simp] theorem edited_and (operands : List (Predicate σ)) :
    (Predicate.and operands).edited edit = .and (operands.map (edited edit)) := by
  simp [edited, respell, revise, respellAll_eq_map, reviseAll_eq_map, comp_def]

@[simp] theorem edited_or (operands : List (Predicate σ)) :
    (Predicate.or operands).edited edit = .or (operands.map (edited edit)) := by
  simp [edited, respell, revise, respellAll_eq_map, reviseAll_eq_map, comp_def]

@[simp] theorem edited_not (operand : Predicate σ) :
    (Predicate.not operand).edited edit = .not (operand.edited edit) := by
  simp [edited, respell, revise]

@[simp] theorem fields_edited (predicate : Predicate σ) :
    (predicate.edited edit).fields = predicate.fields.map edit.write := by
  induction predicate with
  | and operands ih | or operands ih =>
    simp only [edited_and, edited_or, fields, fieldsOf_eq_flatMap, flatMap_map, map_flatMap]
    exact flatMap_congr ih
  | not operand ih => simpa [fields] using ih
  | _ => simp [edited, respell, revise, fields, Aggregate.respell, Similarity.respell, Similarity.revise]

theorem anyPart_edited {test : Predicate σ → Bool} {other : Predicate τ → Bool}
    (same : ∀ predicate, other (predicate.edited edit) = test predicate)
    (predicate : Predicate σ) : (predicate.edited edit).anyPart other = predicate.anyPart test := by
  have whole := same predicate
  induction predicate with
  | and operands ih | or operands ih =>
    simp only [edited_and, edited_or] at whole
    simp only [edited_and, edited_or, anyPart, whole, anyPartOf_eq_any, List.any_map]
    exact congrArg _ (any_congr_of_mem fun operand mem => ih operand mem (same operand))
  | not operand ih =>
    rw [edited_not] at whole
    simp [anyPart, whole, ih (same operand)]
  | _ => simp [← same, edited, respell, revise, anyPart]

variable (predicate : Predicate σ)

@[simp] theorem containsSimilarity_edited :
    (predicate.edited edit).containsSimilarity = predicate.containsSimilarity := by
  apply anyPart_edited
  intro part
  cases part <;> simp [edited, respell, revise, isSimilarity]

@[simp] theorem containsSubquery_edited : (predicate.edited edit).containsSubquery = predicate.containsSubquery := by
  apply anyPart_edited
  intro part
  cases part <;> simp [edited, respell, revise, isSubquery]

theorem topSimilarities_edited : (predicate.edited edit).topSimilarities =
      predicate.topSimilarities.map (Similarity.edited edit) := by
  induction predicate with
  | and operands ih =>
    simp only [edited_and, topSimilarities, topSimilaritiesOf_eq_flatMap, flatMap_map, map_flatMap]
    exact flatMap_congr ih
  | _ => simp [edited, respell, revise, topSimilarities, Similarity.edited]

@[simp] theorem hasNestedSimilarity_edited :
    (predicate.edited edit).hasNestedSimilarity = predicate.hasNestedSimilarity := by
  induction predicate with
  | and operands ih =>
    simp only [edited_and, hasNestedSimilarity, hasNestedSimilarityIn_eq_any, List.any_map]
    exact any_congr_of_mem ih
  | or operands => simp [hasNestedSimilarity, comp_def]
  | not operand => simp [hasNestedSimilarity]
  | _ => simp [edited, respell, revise, hasNestedSimilarity]

end Predicate

section

variable (filter : Filter σ)

@[simp] theorem Filter.aliasName_edited : (filter.edited edit).aliasName = filter.aliasName := rfl

@[simp] theorem Filter.predicate_edited : (filter.edited edit).predicate = filter.predicate.edited edit := rfl

end

def VectorSearch.edited (edit : Edit σ τ) (vector : VectorSearch) : VectorSearch :=
  ⟨vector.pointer, vector.search.edited edit⟩

@[simp] theorem VectorSearch.aliasName_edited (vector : VectorSearch) :
    (vector.edited edit).aliasName = vector.aliasName := edit.aliasName_write _

@[simp] theorem ProjectionSource.isAggregate_respell {spelling : Spelling} (source : ProjectionSource) :
    (source.respell spelling).isAggregate = source.isAggregate := by
  cases source <;> rfl

@[simp] theorem ProjectionSource.fieldOf_respell {spelling : Spelling} (source : ProjectionSource) :
    (source.respell spelling).fieldOf = spelling.write source.fieldOf := by
  cases source <;> rfl

variable (placements : List (Option String)) (vector : Option VectorSearch)

namespace Block

variable {block : Block σ}

section Bindings

@[simp] theorem aliasName_edited : (block.edited edit).start.aliasName = block.start.aliasName := rfl

theorem traversals_edited : (block.edited edit).traversals =
    block.traversals.map (Traversal.revise edit.toRevision) := rfl

theorem lists_edited : (block.edited edit).projection = block.projection.map (Projection.respell edit.toSpelling) ∧
      (block.edited edit).groupBy = block.groupBy.map edit.write ∧
      (block.edited edit).orderBy = block.orderBy.map (Order.respell edit.toSpelling) :=
  ⟨rfl, rfl, rfl⟩

theorem filters_edited : (block.edited edit).filters = block.filters.map (Filter.edited edit) := map_map ..

theorem having_edited : (block.edited edit).having = block.having.map (Predicate.edited edit) := Option.map_map ..

@[simp] theorem aliases_edited : (block.edited edit).aliases = block.aliases := by
  simp [aliases, traversals_edited, Traversal.revise, flatMap_map]

@[simp] theorem binding?_edited : (block.edited edit).binding? = block.binding? := by
  have hops : ∀ (aliasName : String) (index : Nat) (hops : List Traversal),
      bindingIn aliasName index (hops.map (Traversal.revise edit.toRevision)) = bindingIn aliasName index hops := by
    intro aliasName index hops
    induction hops generalizing index with
    | nil => rfl
    | cons hop rest ih => simp [bindingIn, ih, Traversal.revise]
  funext aliasName
  simp [binding?, traversals_edited, hops]

@[simp] theorem elementOf_edited : (block.edited edit).elementOf = block.elementOf := by
  funext aliasName
  simp [elementOf]

end Bindings

section Checks

theorem checkTraversals_revise {revision : Revision σ τ} (seen joinable : List String)
    (hops : List Traversal) : checkTraversals seen joinable (hops.map (Traversal.revise revision)) =
      checkTraversals seen joinable hops := by
  induction hops generalizing seen joinable with
  | nil => rfl
  | cons hop rest ih =>
    have first : checkTraversal seen joinable (hop.revise revision) = checkTraversal seen joinable hop := by
      simp [checkTraversal, Traversal.revise, walkAliases]
    simp only [map_cons, checkTraversals, first, ih]
    rfl

theorem checkBindings_edited : (block.edited edit).checkBindings = block.checkBindings := by
  have kinds : (block.edited edit).start.kinds.isEmpty = block.start.kinds.isEmpty := isEmpty_map
  simp [checkBindings, kinds, traversals_edited, checkTraversals_revise]

@[simp] theorem checkField_edited (clause : Clause) (field : Field) :
    (block.edited edit).checkField clause (edit.write field) = block.checkField clause field := by
  simp [checkField]

@[simp] theorem checkFilter_edited (filter : Filter σ) :
    (block.edited edit).checkFilter (filter.edited edit) = block.checkFilter filter := by
  have fields : (filter.edited edit).predicate.fields.forM ((block.edited edit).checkField .predicate) =
        filter.predicate.fields.forM (block.checkField .predicate) := by
    simp
  simp only [checkFilter, fields, binding?_edited]
  rfl

theorem havingFields_edited : (block.edited edit).havingFields = block.havingFields.map edit.write := by
  cases found : block.having <;> simp [havingFields, having_edited, found]

theorem selectedFields_edited : (block.edited edit).selectedFields =
      block.selectedFields.map (SelectedField.respell edit.toSpelling) := by
  have selected : (block.edited edit).selected =
    block.selected.map (List.map (SelectedField.respell edit.toSpelling)) := rfl
  cases found : block.selected <;> simp [selectedFields, selected, found]

theorem checkReferences_edited : (block.edited edit).checkReferences = block.checkReferences := by
  simp [checkReferences, filters_edited, lists_edited, havingFields_edited,
    selectedFields_edited, Projection.respell, Order.respell, SelectedField.respell]

theorem checkOutputNames_edited : (block.edited edit).checkOutputNames = block.checkOutputNames := by
  simp [checkOutputNames, lists_edited, selectedFields_edited, Projection.respell, SelectedField.respell, comp_def]

theorem checkCarriedNames_edited (taken : List (String × String)) (aliases : List String) :
    (block.edited edit).checkCarriedNames taken aliases = block.checkCarriedNames taken aliases := by
  induction aliases generalizing taken with
  | nil => rfl
  | cons aliasName rest ih => simp [checkCarriedNames, carriedNames, ih]

theorem validate_edited : (block.edited edit).validate = block.validate := by
  simp [validate, checkBindings_edited, checkReferences_edited, checkOutputNames_edited, checkCarriedNames_edited]

@[simp] theorem ownerOf_edited : (block.edited edit).ownerOf = block.ownerOf := by
  funext aliasName
  unfold ownerOf
  rw [binding?_edited, traversals_edited]
  split
  · rfl
  · rfl
  all_goals simp [Traversal.revise, Option.map_map, comp_def]

@[simp] theorem placements_edited : (block.edited edit).placements = block.placements := by
  have each : ∀ filter : Filter σ, (block.edited edit).placement (filter.edited edit) = block.placement filter := by
    intro filter
    simp [placement]
  simp [placements, filters_edited, each]

end Checks

section Search

theorem similarities_edited : (block.edited edit).similarities = block.similarities.map (Similarity.edited edit) := by
  simp [similarities, filters_edited, flatMap_map, map_flatMap, topSimilarities_edited]

theorem checkSimilarity_edited (dialect : Dialect) (search : Similarity) :
    (block.edited edit).checkSimilarity dialect (search.edited edit) =
      (block.checkSimilarity dialect search).map (VectorSearch.edited edit) := by
  have field : (search.edited edit).field = edit.write search.field := rfl
  have count : (search.edited edit).count = search.count := rfl
  have metric : (search.edited edit).metric = search.metric := rfl
  unfold checkSimilarity
  simp only [field, count, metric, aliasName_write, resolve_write, describe_write, binding?_edited]
  cases (block.binding? search.field.aliasName).map Binding.element with
  | none => rfl
  | some element =>
    cases element with
    | edge => rfl
    | node =>
      cases search.field.resolve with
      | error error => rfl
      | ok target =>
        cases target with
        | whole => rfl
        | column column => rfl
        | property pointer =>
          simp only [bind, Except.bind]
          cases pointer.isRoot with
          | true => rfl
          | false =>
            by_cases none : search.count = 0
            · simp [none, Except.map]
            · simp only [none]
              cases dialect.checkMetric search.metric <;> rfl

theorem findSimilarity_edited (dialect : Dialect) : (block.edited edit).findSimilarity dialect =
      (block.findSimilarity dialect).map (Option.map (VectorSearch.edited edit)) := by
  have grouped : (block.edited edit).having.any containsSimilarity = block.having.any containsSimilarity := by
    cases found : block.having <;> simp [having_edited, found]
  simp only [findSimilarity, filters_edited, any_map, comp_def, Filter.predicate_edited,
    hasNestedSimilarity_edited, grouped, similarities_edited]
  split
  · rfl
  · split
    · rfl
    · cases block.similarities with
      | nil => rfl
      | cons search rest =>
        cases rest with
        | nil =>
          simp only [map_cons, map_nil, checkSimilarity_edited]
          cases block.checkSimilarity dialect search <;> rfl
        | cons second others => simp [Except.map]

end Search

section Columns

theorem placedAt_edited (place : Option String) : (block.edited edit).placedAt placements place =
      (block.placedAt placements place).map (Predicate.edited edit) := by
  simp only [placedAt, filters_edited, zip_map_left, filterMap_map, map_filterMap]
  refine congrArg (filterMap · _) (funext fun entry => ?_)
  obtain ⟨filter, placement⟩ := entry
  by_cases same : placement = place <;> simp [same]

@[simp] theorem length_placedAt_edited (place : Option String) :
    ((block.edited edit).placedAt placements place).length = (block.placedAt placements place).length := by
  rw [placedAt_edited, length_map]

@[simp] theorem hasAggregate_edited : (block.edited edit).hasAggregate = block.hasAggregate := by
  simp [hasAggregate, lists_edited, Projection.respell, comp_def]

@[simp] theorem isSome_selected_edited :
    (block.edited edit).selected.isSome = block.selected.isSome := Option.isSome_map

@[simp] theorem isPruned_edited : (block.edited edit).isPruned = block.isPruned := by
  simp [isPruned, having_edited, lists_edited]

@[simp] theorem isGrouped_edited : (block.edited edit).isGrouped = block.isGrouped := by
  simp [isGrouped, having_edited, lists_edited]

theorem projectedField?_respell {spelling : Spelling} (projection : Projection) :
    projectedField? (projection.respell spelling) = (projectedField? projection).map spelling.write := by
  obtain ⟨name, source⟩ := projection
  cases source with
  | field target => rfl
  | aggregate expression =>
    simp only [projectedField?, Projection.respell, ProjectionSource.respell, Aggregate.respell, denotes_write]
    split <;> rfl

theorem finalFields_edited : (block.edited edit).finalFields placements =
      (block.finalFields placements).map edit.write := by
  simp [finalFields, lists_edited, map_filterMap, projectedField?_respell, havingFields_edited,
    selectedFields_edited, placedAt_edited, flatMap_map, map_flatMap, comp_def, Order.respell,
    SelectedField.respell]

@[simp] theorem everyColumn_edited : (block.edited edit).everyColumn = block.everyColumn := by
  funext aliasName
  simp [everyColumn]

@[simp] theorem neededColumns_edited :
    (block.edited edit).neededColumns placements = block.neededColumns placements := by
  funext aliasName
  simp [neededColumns, isRead, finalFields_edited, columnsOf, comp_def]

end Columns

end Block

/-- A literal that is not null. -/
def Operand.isFixed : Operand → Bool
  | .literal value _ => !value.isNull
  | .list .. | .parameter .. => false

/-- The revision keeps literals that are not null, and puts them nowhere else. -/
def Revision.KeepsFixed (revision : Revision σ τ) : Prop :=
  ∀ operand, (revision.operand operand).isFixed = operand.isFixed

theorem Revision.keepsFixed_plain (nested : σ → τ) : (plain nested).KeepsFixed := fun _ => rfl

namespace Block

variable {block : Block σ}

section Shortcuts

theorem isLinearFrom_revise {revision : Revision σ τ} (previous : String) (hops : List Traversal) :
    isLinearFrom previous (hops.map (Traversal.revise revision)) = isLinearFrom previous hops := by
  induction hops generalizing previous with
  | nil => rfl
  | cons hop rest ih => simp [isLinearFrom, ih, Traversal.revise]

theorem all_optional_edited : ((block.edited edit).traversals.all fun hop => !hop.optional) =
      block.traversals.all fun hop => !hop.optional := by
  simp [traversals_edited, Traversal.revise, comp_def]

@[simp] theorem isCollapsible_edited : (block.edited edit).isCollapsible = block.isCollapsible := by
  simp only [isCollapsible, all_optional_edited, isGrouped_edited, isSome_selected_edited]
  simp [traversals_edited, isLinearFrom_revise, lists_edited]

theorem pinsId_comparison (aliasName : String) (field : Field) (op : Comparison)
    (operand : Operand) : pinsId aliasName (.comparison field op operand : Predicate σ) =
      (op == .equal && operand.isFixed && field.aliasName == aliasName && field.denotes (.column .id)) := by
  cases op <;> cases operand <;> simp [pinsId, Operand.isFixed, Bool.and_comm, Bool.and_assoc]

theorem anyPinsId_eq_any (aliasName : String) (operands : List (Predicate σ)) :
    anyPinsId aliasName operands = operands.any (pinsId aliasName) := by
  induction operands with
  | nil => rfl
  | cons operand rest ih => simp [anyPinsId, ih]

theorem pinsId_edited (keeps : edit.KeepsFixed) (aliasName : String) (predicate : Predicate σ) :
    pinsId aliasName (predicate.edited edit) = pinsId aliasName predicate := by
  induction predicate with
  | comparison => simp [Predicate.edited, Predicate.respell, Predicate.revise, pinsId_comparison, keeps _]
  | and operands ih =>
    simp only [edited_and, pinsId, anyPinsId_eq_any, any_map]
    exact any_congr_of_mem ih
  | or operands | not operand => simp [pinsId]
  | _ => simp [Predicate.edited, Predicate.respell, Predicate.revise, pinsId]

theorem pushdown_edited (keeps : edit.KeepsFixed) :
    (block.edited edit).pushdown placements (vector.map (VectorSearch.edited edit)) =
      block.pushdown placements vector := by
  have limit : (block.edited edit).limit = block.limit := rfl
  have offset : (block.edited edit).offset = block.offset := rfl
  simp only [pushdown, limit, offset, aliasName_edited, placedAt_edited, any_map, comp_def,
    pinsId_edited keeps, all_optional_edited, isGrouped_edited, Option.isNone_map]
  simp [traversals_edited, lists_edited]

theorem countColumns_respell {spelling : Spelling} (start node : String) (index : Nat) (projections : List Projection) :
    countColumns start node index (projections.map (Projection.respell spelling)) =
      countColumns start node index projections := by
  have role (projection : Projection) :
      countRole start node (projection.respell spelling) = countRole start node projection := by
    obtain ⟨name, source⟩ := projection
    cases source <;>
      simp [countRole, Projection.respell, ProjectionSource.respell, Aggregate.respell]
  induction projections generalizing index with
  | nil => rfl
  | cons projection rest ih => simp [countColumns, role, ih]

theorem groupsByStart_edited : (block.edited edit).groupsByStart = block.groupsByStart := by
  unfold groupsByStart
  rw [aliasName_edited, lists_edited.2.1]
  rcases block.groupBy with _ | ⟨field, _ | ⟨second, rest⟩⟩ <;> simp

theorem counts_edited : (block.edited edit).counts placements (vector.map (VectorSearch.edited edit)) =
      block.counts placements vector := by
  unfold counts
  rw [traversals_edited]
  rcases block.traversals with _ | ⟨hop, _ | ⟨second, rest⟩⟩
  · rfl
  · have inverse : (hop.revise edit.toRevision).inverseEdgeKinds.isEmpty = hop.inverseEdgeKinds.isEmpty := isEmpty_map
    simp only [map_cons, map_nil, inverse, groupsByStart_edited, having_edited, Option.isNone_map,
      aliasName_edited, lists_edited, all_map, comp_def, Order.respell, aliasName_write,
      countColumns_respell]
    rfl
  · rfl

end Shortcuts

section Plans

@[simp] theorem scanPlan_edited (aliasName : String) (source : Element) :
    (block.edited edit).scanPlan placements aliasName source = block.scanPlan placements aliasName source := by
  simp [scanPlan]

@[simp] theorem finishPlan_edited (finalPredicates : Nat) (aggregates hasVector : Bool)
    (input : Plan) : (block.edited edit).finishPlan finalPredicates aggregates hasVector input =
      block.finishPlan finalPredicates aggregates hasVector input := by
  have limit : (block.edited edit).limit = block.limit := rfl
  have offset : (block.edited edit).offset = block.offset := rfl
  have selected : (block.edited edit).selected.map List.length = block.selected.map List.length := by
    simp [edited, revise, respell, comp_def]
  simp [finishPlan, lists_edited, having_edited, limit, offset, selected, Projection.respell, comp_def]

theorem chainPlan_edited (counts : Option Counts) :
    (block.edited edit).chainPlan placements (vector.map (VectorSearch.edited edit))
      counts = block.chainPlan placements vector counts := by
  have step : ∀ input hop, (block.edited edit).joinPlan placements counts input
      (hop.revise edit.toRevision) = block.joinPlan placements counts input hop := by
    intro input hop
    simp only [joinPlan, scanPlan_edited]
    rfl
  simp only [chainPlan, traversals_edited, foldl_map, step, scanPlan_edited, finishPlan_edited,
    length_placedAt_edited, Option.isSome_map, aliasName_edited]
  cases vector with
  | none => rfl
  | some vector =>
    simp only [Option.map_some, VectorSearch.aliasName_edited]
    rfl

theorem onlyWalk_edited : (block.edited edit).onlyWalk =
      block.onlyWalk.map fun (hop, walk) => (hop.revise edit.toRevision, walk) := by
  unfold onlyWalk
  rw [traversals_edited]
  rcases block.traversals with _ | ⟨hop, _ | ⟨second, rest⟩⟩
  · rfl
  · cases found : hop.walk <;> simp [Traversal.revise, found, Except.map]
  · simp [Except.map]

theorem checkWalk_edited (hasVector : Bool) : (block.edited edit).checkWalk hasVector = block.checkWalk hasVector := by
  unfold checkWalk
  rw [onlyWalk_edited]
  cases block.onlyWalk <;> rfl

theorem walkPlan_edited : (block.edited edit).walkPlan placements = block.walkPlan placements := by
  unfold walkPlan
  rw [onlyWalk_edited]
  cases block.onlyWalk with
  | error error => rfl
  | ok found =>
    simp only [Except.map, bind, Except.bind, scanPlan_edited, finishPlan_edited,
      length_placedAt_edited, aliasName_edited]
    rfl

end Plans

end Block

/-- The decisions with the search written in another way and at another point in time. -/
def Decisions.edited (edit : Edit σ τ) (now : Option Term → Option Term) (picks : Decisions) : Decisions :=
  { picks with
    vector := picks.vector.map (VectorSearch.edited edit)
    now := now picks.now }

namespace Traced

variable {α β : Type}

theorem lawful : LawfulMonad Traced := by
  refine LawfulMonad.mk' Traced ?_ ?_ ?_
  · rintro α ⟨events, result⟩
    cases result <;> simp [Functor.map]
  · intro α β value next
    simp [bind, pure]
  · rintro α β γ ⟨events, result⟩ next last
    cases result with
    | error error => rfl
    | ok value =>
      simp only [bind]
      rcases next value with ⟨further, _ | _⟩ <;> simp

theorem result_map (f : α → β) (computation : Traced α) : (f <$> computation).result = computation.result.map f := by
  obtain ⟨events, result⟩ := computation
  cases result <;> rfl

theorem ofExcept_map (f : α → β) (result : Attempt α) : ofExcept (result.map f) = f <$> ofExcept result := by
  cases result <;> rfl

end Traced

namespace Block

variable {block : Block σ}

theorem analyzeReferences_edited (dialect : Dialect) : (block.edited edit).analyzeReferences dialect =
      Option.map (VectorSearch.edited edit) <$> block.analyzeReferences dialect := by
  have := Traced.lawful
  simp only [analyzeReferences, validate_edited, findSimilarity_edited, map_bind]
  refine bind_congr fun _ => bind_congr fun _ => bind_congr fun _ => ?_
  simp only [liftM, monadLift, MonadLift.monadLift, Traced.ofExcept_map, bind_map_left]
  refine bind_congr fun vector => ?_
  cases vector with
  | none => simp
  | some vector =>
    simp only [Option.map_some, VectorSearch.aliasName_edited, map_bind, map_pure]
    rfl

variable {opts changed : Options} (now : Option Term → Option Term)
variable (dialect : changed.dialect = opts.dialect)
variable (moment : (block.edited edit).temporal.now changed = now (block.temporal.now opts))
include dialect moment

theorem analyzeChain_edited (keeps : edit.KeepsFixed) : (block.edited edit).analyzeChain changed =
      (fun (picks, plan) => (picks.edited edit now, plan)) <$> block.analyzeChain opts := by
  have := Traced.lawful
  have limits : (block.edited edit).limit = block.limit := rfl
  have lengths : (block.edited edit).traversals.length = block.traversals.length := length_map _
  have decided : ∀ vector, (block.edited edit).chainDecisions changed (vector.map (VectorSearch.edited edit)) =
        (block.chainDecisions opts vector).edited edit now := by
    intro vector
    simp [chainDecisions, Decisions.edited, moment, pushdown_edited _ _ keeps, counts_edited]
  simp only [analyzeChain, analyzeReferences_edited, dialect, map_bind, bind_map_left]
  refine bind_congr fun _ => bind_congr fun vector => ?_
  simp only [decided, isPruned_edited, limits, lengths, aliases_edited, chainPlan_edited]
  -- The events between the stages depend on these decisions, which are the same on both sides.
  generalize block.chainDecisions opts vector = picks
  obtain ⟨placements, found, now, carried, collapse, pushdown, counts⟩ := picks
  cases block.isPruned <;> cases collapse <;> cases block.limit <;> cases pushdown <;>
    cases counts <;> rfl

theorem analyzeWalk_edited : (block.edited edit).analyzeWalk changed =
      (fun (picks, plan) => (picks.edited edit now, plan)) <$> block.analyzeWalk opts := by
  have := Traced.lawful
  have decided : ∀ vector, (block.edited edit).walkDecisions changed (vector.map (VectorSearch.edited edit)) =
        (block.walkDecisions opts vector).edited edit now := by
    intro vector
    simp [walkDecisions, Decisions.edited, moment]
  simp only [analyzeWalk, analyzeReferences_edited, dialect, map_bind, bind_map_left, map_pure,
    Option.isSome_map, checkWalk_edited, placements_edited, walkPlan_edited, decided]

end Block

end GraphSql
