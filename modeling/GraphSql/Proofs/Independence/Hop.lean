import GraphSql.Proofs.Independence.Predicate
import GraphSql.Proofs.Lowering.Hop

namespace GraphSql

open Condition List Term

variable {σ τ υ ι : Type}

@[simp] theorem Term.blank_text (value : String) : (Term.text value).blank = .value .null := rfl

theorem Condition.outline_kindIs (f : σ → τ) (rename : String → String) (term : Term) (kinds : List String) :
    (kindIs term (kinds.map rename)).outline f = (kindIs term kinds).outline f := by
  rcases kinds with _ | ⟨first, _ | ⟨second, rest⟩⟩
  · rfl
  · rfl
  · simp [kindIs, outline, Function.comp_def]

namespace Traversal

variable {revision : Revision σ τ} (hop : Traversal) (text : υ → ι)

@[simp] theorem nodeAlias_revise : (hop.revise revision).nodeAlias = hop.nodeAlias := rfl

@[simp] theorem edgeAlias_revise : (hop.revise revision).edgeAlias = hop.edgeAlias := rfl

@[simp] theorem joinFrom_revise : (hop.revise revision).joinFrom = hop.joinFrom := rfl

@[simp] theorem direction_revise : (hop.revise revision).direction = hop.direction := rfl

@[simp] theorem isEmpty_edgeKinds_revise :
    (hop.revise revision).edgeKinds.isEmpty = hop.edgeKinds.isEmpty := isEmpty_map

@[simp] theorem isEmpty_inverseEdgeKinds_revise :
    (hop.revise revision).inverseEdgeKinds.isEmpty = hop.inverseEdgeKinds.isEmpty :=
  isEmpty_map

@[simp] theorem isEmpty_nodeKinds_revise :
    (hop.revise revision).nodeKinds.isEmpty = hop.nodeKinds.isEmpty := isEmpty_map

theorem outline_leavesFrom (rename : String → String) (start : NodeKey) (direction : Direction) (kinds : List String) :
    (leavesFrom start direction (kinds.map rename) : Condition υ).outline text =
      (leavesFrom start direction kinds).outline text := by
  simp only [leavesFrom, edgeKindIs, outline, outlineAll, outline_kindIs]

theorem outline_edgeConditions (start : NodeKey) : ((hop.revise revision).edgeConditions start).map (outline text) =
      (hop.edgeConditions start).map (outline text) := by
  simp only [edgeConditions, isEmpty_edgeKinds_revise, isEmpty_inverseEdgeKinds_revise]
  split
  · rfl
  · split
    · exact congrArg ([·]) (outline_leavesFrom text revision.kind _ _ _)
    · simp [revise, outline, outlineAll, outline_leavesFrom]

theorem outline_nodeConditions (start : NodeKey) : ((hop.revise revision).nodeConditions start).map (outline text) =
      (hop.nodeConditions start).map (outline text) := by
  simp only [nodeConditions, isEmpty_edgeKinds_revise, isEmpty_inverseEdgeKinds_revise]
  split
  · rfl
  · split
    · rfl
    · simp [revise, outline, outline_leavesFrom]

theorem outline_joins (graphId other : String) (start : NodeKey) (ordered : Bool) :
    ((hop.revise revision).joins other start ordered).map (Join.outline text) =
      (hop.joins graphId start ordered).map (Join.outline text) := by
  simp only [joins, Join.outline, map_cons, map_nil, outline_edgeConditions, outline_nodeConditions]
  rfl

theorem outline_kindConditions : (hop.revise revision).kindConditions.map (outline text) =
      hop.kindConditions.map (outline text) := by
  have edges : (edgeKindIs (hop.revise revision).edgeKinds : Condition υ).outline text =
      (edgeKindIs hop.edgeKinds).outline text :=
    outline_kindIs text revision.kind _ _
  have nodes : (kindIs (.ofColumn .node .kind) (hop.revise revision).nodeKinds).outline text =
      (kindIs (.ofColumn .node .kind) hop.nodeKinds).outline text :=
    outline_kindIs text revision.kind _ _
  simp only [kindConditions, isEmpty_inverseEdgeKinds_revise, isEmpty_nodeKinds_revise, map_append]
  congr 1
  · split
    · exact congrArg ([·]) edges
    · rfl
  · split
    · rfl
    · exact congrArg ([·]) nodes

end Traversal

namespace TemporalMode

variable {revision : Revision σ τ}

/-- The point in time does not show, but whether there is one does. -/
theorem blank_now_revise (mode : TemporalMode) {opts changed : Options}
    (pinned : changed.now.isSome = opts.now.isSome) :
    ((mode.revise revision).now changed).map blank = (mode.now opts).map blank := by
  cases mode with
  | asOf timestamp | includeEnded | includeTombstones => rfl
  | current => cases found : opts.now <;> cases other : changed.now <;> simp_all [TemporalMode.revise, now]

theorem outline_conditions (mode : TemporalMode) {moment other : Option Term}
    (moments : other.map blank = moment.map blank) (element : Element) (text : υ → ι) :
    ((mode.revise revision).conditions other element).map (outline text) =
      (mode.conditions moment element).map (outline text) := by
  cases mode with
  | includeEnded | includeTombstones => rfl
  | asOf | current =>
    cases moment <;> cases other <;> simp_all [TemporalMode.revise, conditions, outline, outlineAll]

end TemporalMode

/-- The options differ at most in the time that counts as now, which both give or neither. -/
structure Options.Alike (first second : Options) : Prop where
  dialect : second.dialect = first.dialect
  schema : second.schema = first.schema
  pinned : second.now.isSome = first.now.isSome

/-- The settings differ at most in the graph and in the time that counts as now. -/
structure Setting.Alike (first second : Setting) : Prop where
  opts : first.opts.Alike second.opts
  tag : second.tag = first.tag

theorem Setting.alike_refl (env : Setting) : env.Alike env := ⟨⟨rfl, rfl, rfl⟩, rfl⟩

theorem Setting.Alike.dialect {env changed : Setting} (envs : env.Alike changed) :
    changed.opts.dialect = env.opts.dialect := envs.opts.dialect

variable {revision : Revision σ τ}

namespace Block

variable {text : Statement → τ} {rename : String → String} {first second : ι → Nested}
variable {block : Block ι} {picks : Decisions} {now : Option Term}

@[simp] theorem tableColumns_revise {block : Block σ} :
    (block.revise revision).tableColumns picks = block.tableColumns picks := by
  funext aliasName
  simp [tableColumns]

@[simp] theorem tableColumns_reviseDecisions :
    block.tableColumns (picks.revise revision now) = block.tableColumns picks := rfl

theorem outline_startConditions {revision : Revision σ υ} {block : Block σ} (graphId other : String) :
    ((block.revise revision).startConditions other).map (outline text) =
      (block.startConditions graphId).map (outline text) := by
  have kinds := outline_kindIs text revision.kind (.ofColumn .node .kind) block.start.kinds
  simp only [startConditions, map_cons, map_nil]
  exact congrArg (_ :: [·]) kinds

theorem lowerPlaced_masked
    (alike : ∀ inner ∈ block.nested, (first inner).Alike text (second inner)) (dialect : Dialect)
    (scope : Scope) (place : Option String) :
    AgreeOn (List.map (outline text)) ((block.revise (.plain first)).lowerPlaced dialect picks scope place).result
      ((block.revise (.masking rename second)).lowerPlaced dialect
        (picks.revise (.masking rename second) now) scope place).result := by
  simp only [lowerPlaced, Decisions.revise, placedAt_revise, ← Predicate.reviseAll_eq_map]
  rw [← funext (outlineAll_eq_map text)]
  exact Predicate.lowerAll_masked dialect scope _ fun inner mem => alike inner (nestedOf_placedAt mem)

@[simp] theorem now_reviseDecisions : (picks.revise revision now).now = now := rfl

theorem outline_visibility (first : ι → Nested) {revision : Revision ι Nested}
    (moments : now.map blank = picks.now.map blank) (element : Element) :
    ((block.revise revision).temporal.conditions now element).map (outline text) =
      ((block.revise (.plain first)).temporal.conditions picks.now element).map (outline text) :=
  (block.temporal.outline_conditions moments element text).trans
    (block.temporal.outline_conditions rfl element text).symm

theorem hopConditions_masked (alike : ∀ inner ∈ block.nested, (first inner).Alike text (second inner))
    (moments : now.map blank = picks.now.map blank) (dialect : Dialect)
    (hop : Traversal) :
    AgreeOn (List.map (outline text)) ((block.revise (.plain first)).hopConditions dialect picks hop).result
      ((block.revise (.masking rename second)).hopConditions dialect (picks.revise (.masking rename second) now)
        (hop.revise (Revision.masking rename second))).result := by
  simp only [hopConditions, Traced.result_bind, Traced.result_pure]
  refine (lowerPlaced_masked alike dialect hop.scope (some hop.nodeAlias)).bind fun conditions others same => ?_
  simp [hopVisibility, same, Traversal.outline_kindConditions, outline_visibility first moments]

end Block

end GraphSql
