import GraphSql.Proofs.Portability.Level

namespace GraphSql

open Block Traced

variable {ι : Type}

/-- Both levels have the same clauses, and one plan. -/
def PlannedAlike (compiled other : Level Statement × Plan) : Prop :=
  compiled.1.select.SameClauses other.1.select ∧ compiled.2 = other.2

namespace Block

section

variable {first second : ι → Nested} {block : Block ι} {env : Setting} {changed : Options}
variable (portable : block.isPortable = true)
variable (nested : ∀ inner ∈ block.nested, (first inner).SameVerdict (second inner))
variable (clock : env.opts.now = changed.now)
include portable nested clock

theorem compileChain_plannedAlike : Coincide PlannedAlike ((block.map first).compileChain env).result
      ((block.map second).compileChain { env with opts := changed }).result := by
  simp only [compileChain, result_bind, result_pure]
  rw [analyzeChain_map portable clock first second]
  apply coincide_bind_same
  rintro ⟨picks, plan⟩
  apply (chainLevel_sameClauses portable nested env changed).bind
  intro _ _ same
  exact ⟨same, rfl⟩

theorem compileWalk_plannedAlike : Coincide PlannedAlike ((block.map first).compileWalk env).result
      ((block.map second).compileWalk { env with opts := changed }).result := by
  -- Without kinds, a dialect with a member for each direction would not look at the predicates.
  have kinded : Returns ((block.map second).analyzeWalk changed).result fun _ =>
      ∀ hop ∈ block.traversals, hop.allKinds ≠ [] := by
    rw [result_analyzeWalk, returns_bind]
    apply ((block.map second).analyzeReferences_kinded changed.dialect).imp
    intro vector kinded
    exact returns_all fun _ => kinded.hops
  simp only [compileWalk, result_bind, result_pure]
  rw [analyzeWalk_map portable clock first second]
  cases analyzed : ((block.map second).analyzeWalk changed).result with
  | error error => rfl
  | ok found =>
    have kinds := kinded.of_ok analyzed
    apply (walkLevel_sameClauses portable nested env changed kinds).bind
    intro _ _ same
    exact ⟨same, rfl⟩

theorem compileLevel_plannedAlike : Coincide PlannedAlike ((block.map first).compileLevel env).result
      ((block.map second).compileLevel { env with opts := changed }).result := by
  have single : ∀ f : ι → Nested, (block.map f).isSingleHop = block.isSingleHop := fun _ => rfl
  have walks : ∀ f : ι → Nested, (block.map f).isWalk = block.isWalk := fun _ => rfl
  have withoutWalks : ∀ f : ι → Nested, (block.map f).withoutWalks = block.withoutWalks.map f := fun _ => rfl
  have portableHops : block.withoutWalks.isPortable = true := portable
  have nestedHops : ∀ inner ∈ block.withoutWalks.nested, (first inner).SameVerdict (second inner) := nested
  simp only [compileLevel, single, walks, withoutWalks]
  split
  · simp only [result_bind, result_logged]
    apply coincide_bind_same
    intro _
    exact compileChain_plannedAlike portableHops nestedHops clock
  · split
    · exact compileWalk_plannedAlike portable nested clock
    · exact compileChain_plannedAlike portable nested clock

theorem compile_samePlan : Coincide (fun compiled other => compiled.2 = other.2) ((block.map first).compile env).result
      ((block.map second).compile { env with opts := changed }).result := by
  simp only [compile, result_bind, result_pure]
  apply (compileLevel_plannedAlike portable nested clock).bind
  rintro ⟨level, plan⟩ ⟨other, otherPlan⟩ ⟨clauses, plans⟩
  obtain rfl : plan = otherPlan := plans
  simp only [clauses plan]
  exact coincide_bind_same fun _ => rfl

end

end Block

namespace Query

/-- No predicate of the query is bound to a dialect, at any depth of nesting. -/
def isPortable : Query → Bool := fold fun block => block.isPortable && block.nested.all id

theorem isPortable_mk (block : Block Query) :
    (mk block).isPortable = (block.isPortable && block.nested.all isPortable) := by
  rw [isPortable, fold_mk, isPortable_map, nested_map, List.all_map]
  rfl

variable {opts changed : Options} (clock : opts.now = changed.now)
include clock

theorem nest_sameVerdict : ∀ query : Query, query.isPortable = true →
      (query.fold (nest opts)).SameVerdict (query.fold (nest changed)) := by
  apply induction_nested
  intro block ih portable
  rw [isPortable_mk, Bool.and_eq_true, List.all_eq_true] at portable
  have nested : ∀ inner ∈ block.nested, (inner.fold (nest opts)).SameVerdict (inner.fold (nest changed)) :=
    fun inner mem => ih inner mem (portable.2 inner mem)
  -- Field by field, as the blocks as a whole differ in what becomes of their nested queries.
  have graphs : ∀ f : Query → Nested, (block.map f).graphId = block.graphId := fun _ => rfl
  have starts : ∀ f : Query → Nested, (block.map f).start = block.start := fun _ => rfl
  have columns : ∀ (opts : Options) (f : Query → Nested),
      (nest opts (block.map f)).projection = block.projection := fun _ _ => rfl
  rw [fold_mk, fold_mk]
  refine ⟨(columns _ _).trans (columns _ _).symm, ?_⟩
  simp only [nest, graphs, starts]
  cases block.graphId with
  | none => rfl
  | some graphId =>
    simp only [result_bind, result_pure]
    have clocks : (Setting.mk opts graphId "").opts.now = changed.now := clock
    exact (compile_samePlan portable.1 nested clocks).bind fun _ _ _ => trivial

theorem statement_samePlan {query : Query} (portable : query.isPortable = true) (graphId : String) :
    Coincide (fun compiled other => compiled.2 = other.2) (query.statement opts graphId).result
      (query.statement changed graphId).result := by
  obtain ⟨block⟩ := query
  rw [isPortable_mk, Bool.and_eq_true, List.all_eq_true] at portable
  have nested : ∀ inner ∈ block.nested, (inner.fold (nest opts)).SameVerdict (inner.fold (nest changed)) :=
    fun inner mem => nest_sameVerdict clock inner (portable.2 inner mem)
  have clocks : (Setting.mk opts graphId "").opts.now = changed.now := clock
  simp only [statement, result_bind, result_logged, result_pure]
  apply coincide_bind_same
  intro _
  apply (compile_samePlan portable.1 nested clocks).bind
  intro _ _ same
  exact same

end Query

/-- The dialects accept the same portable queries and plan them alike, and a portable query that one
of them rejects is rejected by the other for the same reason. -/
theorem dialects_accept_alike {query : Query} (portable : query.isPortable = true) (schema : Schema)
    (now : Option Instant) (graphId : String) :
    (query.compile { dialect := .sqlite, schema, now } graphId).result.map CompiledQuery.plan =
      (query.compile { dialect := .postgres, schema, now } graphId).result.map
        CompiledQuery.plan := by
  apply Coincide.map_eq
  simp only [Query.compile, Traced.result_bind]
  have clock : (Options.mk .sqlite schema now).now = (Options.mk .postgres schema now).now := rfl
  apply (Query.statement_samePlan clock portable graphId).bind
  intro first second same
  simp only [CompiledQuery.finish, Traced.result_bind, Traced.result_logged, Traced.result_pure]
  apply coincide_bind_same
  intro _
  exact same

/-- Whom a person knows in up to three steps either way, if a post of a title like the pattern is
near to an embedding. -/
def recommendations (pattern : Operand) : Query :=
  let post : Query := .mk ((Block.ofKind "p" "post").withGraph "posts"
    |>.filterBy .node "p" (.similarity
      { field := .ofProperty "p" "embedding", embedding := [], metric := .cosine, count := 5 })
    |>.filterBy .node "p" (.text (.ofProperty "p" "title") .like pattern))
  let steps : Traversal :=
    { Traversal.outwardFrom "a" "e" "knows" "b" "person" with
      inverseEdgeKinds := ["follows"]
      walk := some { minDepth := 1, maxDepth := 3 } }
  .mk ((Block.ofKind "a" "person").traverse steps |>.filterBy .node "b" (.subquery post false))

/-- A text as the pattern is accepted, and a list is rejected. -/
theorem recommendations_alike :
    (∃ plan, ∀ dialect : Dialect,
      ((recommendations (.literal (.string "a%") none)).compile { dialect } "people").result.map
        CompiledQuery.plan = .ok plan) ∧
      ∀ dialect : Dialect,
        ((recommendations (.list [] none)).compile { dialect } "people").result.map
          CompiledQuery.plan = .error (.unsupported .listOperand) := by
  have portableText : (recommendations (.literal (.string "a%") none)).isPortable = true := rfl
  have portableList : (recommendations (.list [] none)).isPortable = true := rfl
  have text := dialects_accept_alike portableText {} none "people"
  have list := dialects_accept_alike portableList {} none "people"
  obtain ⟨plan, accepted⟩ : ∃ plan, ((recommendations (.literal (.string "a%") none)).compile {}
      "people").result.map CompiledQuery.plan = .ok plan := ⟨_, rfl⟩
  have rejected : ((recommendations (.list [] none)).compile {} "people").result.map
      CompiledQuery.plan = .error (.unsupported .listOperand) := rfl
  refine ⟨⟨plan, fun dialect => ?_⟩, fun dialect => ?_⟩
  · cases dialect with
    | sqlite => exact accepted
    | postgres => exact text.symm.trans accepted
  · cases dialect with
    | sqlite => exact rejected
    | postgres => exact list.symm.trans rejected

end GraphSql
