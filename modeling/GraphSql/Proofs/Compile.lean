import GraphSql.Proofs.Lowering.ChainSelect
import GraphSql.Proofs.Lowering.Walk

namespace GraphSql

open Block List Traced

/-- A level that is scoped and has exactly the clauses that its plan asks for. -/
def Sound (holds : Statement → Prop) (compiled : Level Statement × Plan) : Prop :=
  compiled.1.Scoped holds ∧ compiled.1.select.check compiled.2 = .ok ()

variable (property : Level Statement → Prop)

namespace Block

variable {block : Block Nested} {holds : Statement → Prop}

theorem compileChain_ensures (nested : block.NestedEnsures holds) (env : Setting) :
    Ensures (block.compileChain env).result (Sound holds) := by
  unfold compileChain
  simp only [result_bind, result_pure, ensures_bind]
  apply (block.analyzeChain_ensures env.opts).imp
  rintro ⟨picks, plan⟩ ⟨bound, fit, vector, rfl, rfl⟩
  apply (chainLevel_ensures bound fit (block.chainDecisions_shortcuts _ vector) nested env).imp
  rintro level ⟨levelScoped, writes⟩
  exact ⟨levelScoped, writes.check_eq_ok (block.chainPlan_asks _ vector _)⟩

theorem compileWalk_ensures (isWalk : block.isWalk = true) (nested : block.NestedEnsures holds) (env : Setting) :
    Ensures (block.compileWalk env).result (Sound holds) := by
  unfold compileWalk
  simp only [result_bind, result_pure, ensures_bind]
  apply (analyzeWalk_ensures isWalk env.opts).imp
  rintro ⟨picks, plan⟩ ⟨bound, fit, -, asks⟩
  apply (walkLevel_ensures isWalk bound fit nested env).imp
  rintro level ⟨levelScoped, writes⟩
  exact ⟨levelScoped, writes.check_eq_ok asks⟩

theorem compileLevel_ensures (nested : block.NestedEnsures holds) (env : Setting) :
    Ensures (block.compileLevel env).result (Sound holds) := by
  unfold compileLevel
  split
  · simp only [result_bind, result_logged, ensures_bind, ensures_ok]
    have same : block.withoutWalks.NestedEnsures holds := nested
    exact compileChain_ensures same env
  · split
    · next isWalk => exact compileWalk_ensures isWalk nested env
    · exact compileChain_ensures nested env

/-- The check of the clauses never fails. -/
theorem compile_ensures (nested : block.NestedEnsures holds) (env : Setting) :
    Ensures (block.compile env).result (Sound holds) := by
  unfold compile
  simp only [result_bind, result_pure, ensures_bind]
  apply (compileLevel_ensures nested env).imp
  rintro ⟨level, plan⟩ sound
  dsimp only
  rw [show Traced.result (liftM (level.select.check plan)) = .ok () from sound.2]
  exact sound

section Routes

variable {env : Setting} {picks : Decisions}

/-- What each row set of a hop has, whether it counts or not, all of them have. -/
theorem hopRowSets_returns {property : RowSet Statement → Prop} {hops : List Traversal}
    (counted : ∀ counts ∈ picks.counts, ∀ hop ∈ hops, counts.nodeAlias = hop.nodeAlias →
      Returns (block.countRowSet env picks hop counts).result property)
    (plain : ∀ hop ∈ hops, ∀ later, Returns (block.hopRowSet env picks hop later).result property) :
    Returns (block.hopRowSets env picks hops).result fun rowSets => ∀ rowSet ∈ rowSets, property rowSet := by
  induction hops with
  | nil => simp [hopRowSets]
  | cons hop later ih =>
    have others := ih (fun counts found other mem => counted counts found other (.tail _ mem))
      (fun other mem => plain other (.tail _ mem))
    have first : Returns (block.rowSetOf env picks hop later).result property := by
      unfold rowSetOf
      split
      · next counts found =>
        split
        · next same => exact counted counts found hop (.head _) same
        · exact plain hop (.head _) later
      · exact plain hop (.head _) later
    simp only [result_hopRowSets_cons, returns_bind, returns_ok, forall_mem_cons]
    exact first.imp fun _ ofFirst => others.imp fun _ rest => ⟨ofFirst, rest⟩

theorem stepMembers_returns {walk : Walk} {property : Select Statement → Prop} {steps : List (Traversal × Conditions)}
    (each : ∀ step ∈ steps, Returns (walk.stepMember block env picks step.1 step.2).result property) :
    Returns (walk.stepMembers block env picks steps).result fun members => ∀ member ∈ members, property member := by
  induction steps with
  | nil => simp [Walk.stepMembers]
  | cons step rest ih =>
    rw [forall_mem_cons] at each
    simp only [Walk.stepMembers, result_bind, result_pure, returns_bind, returns_ok, forall_mem_cons]
    exact each.1.imp fun _ first => (ih each.2).imp fun _ others => ⟨first, others⟩

/-- What each row set and the final SELECT have, the level of a chain has. -/
theorem chainLevel_returns {rowSet : RowSet Statement → Prop} {final : Select Statement → Prop}
    (start : Returns (block.startRowSet env picks).result rowSet)
    (counted : ∀ counts ∈ picks.counts, ∀ hop ∈ block.traversals, counts.nodeAlias = hop.nodeAlias →
        Returns (block.countRowSet env picks hop counts).result rowSet)
    (plain : ∀ hop ∈ block.traversals, ∀ later, Returns (block.hopRowSet env picks hop later).result rowSet)
    (select : Returns (block.chainSelect env picks).result final) :
    Returns (block.chainLevel env picks).result fun level =>
      (∀ made ∈ level.rowSets, rowSet made) ∧ final level.select := by
  simp only [chainLevel, result_bind, result_pure, returns_bind, returns_ok, forall_mem_cons]
  refine start.imp fun _ ofStart => (hopRowSets_returns counted plain).imp fun _ ofHops => ?_
  exact select.imp fun _ ofSelect => ⟨⟨ofStart, ofHops⟩, ofSelect⟩

/-- What each member and the final SELECT have, the level of a walk has. -/
theorem walkLevel_returns {member final : Select Statement → Prop} (isWalk : block.isWalk = true)
    (each : ∀ walk, block.walk = .ok walk → walk.hop ∈ block.traversals →
      Returns (walk.startMember block env picks).result member ∧
      (∀ strategy, ∀ step ∈ Walk.steps strategy walk.hop,
        Returns (walk.stepMember block env picks step.1 step.2).result member) ∧
      Returns (walk.select block env picks).result final) :
    Returns (block.walkLevel env picks).result fun level =>
      (∀ made ∈ level.rowSets, made.name = Walk.rowSetName env ∧
        ∀ select ∈ made.members, member select) ∧ final level.select := by
  simp only [walkLevel, result_bind, result_pure, returns_bind, returns_ok, forall_mem_singleton, forall_mem_cons]
  refine (walk_ensures isWalk).attach.returns.imp ?_
  rintro walk ⟨found, mem⟩
  obtain ⟨first, steps, select⟩ := each walk found mem
  refine first.imp fun _ ofFirst => (stepMembers_returns (steps _)).imp fun _ ofSteps => ?_
  exact select.imp fun _ ofSelect => ⟨⟨trivial, ofFirst, ofSteps⟩, ofSelect⟩

theorem compileChain_returns (each : ∀ vector, (block.analyzeReferences env.opts.dialect).result = .ok vector →
      Returns (block.chainLevel env (block.chainDecisions env.opts vector)).result property) :
    Returns (block.compileChain env).result fun compiled => property compiled.1 := by
  unfold compileChain
  simp only [result_bind, result_pure, returns_bind]
  rw [result_analyzeChain, returns_mapOk]
  cases searched : (block.analyzeReferences env.opts.dialect).result with
  | error error => trivial
  | ok vector => exact (each vector searched).imp fun _ holds => holds

/-- What holds of the level on each route holds of the level of a query. A walk of one step is
compiled as a chain without walks. -/
theorem compile_returns (single : block.isSingleHop = true → ∀ vector,
      (block.withoutWalks.analyzeReferences env.opts.dialect).result = .ok vector →
        Returns (block.withoutWalks.chainLevel env
          (block.withoutWalks.chainDecisions env.opts vector)).result property)
    (walk : block.isSingleHop = false → block.isWalk = true →
      (block.analyzeReferences env.opts.dialect).result = .ok none →
        Returns (block.walkLevel env (block.walkDecisions env.opts none)).result property)
    (chain : block.isWalk = false → ∀ vector, (block.analyzeReferences env.opts.dialect).result = .ok vector →
        Returns (block.chainLevel env (block.chainDecisions env.opts vector)).result property) :
    Returns (block.compile env).result fun compiled => property compiled.1 := by
  have walked (notSingleHop : block.isSingleHop = false) (isWalk : block.isWalk = true) :
      Returns (block.compileWalk env).result fun compiled => property compiled.1 := by
    unfold compileWalk
    simp only [result_bind, result_pure, returns_bind]
    rw [result_analyzeWalk, returns_bind]
    cases searched : (block.analyzeReferences env.opts.dialect).result with
    | error error => trivial
    | ok vector =>
      simp only [returns_ok, returns_bind, returns_pure]
      apply (checkWalk_ensures isWalk vector.isSome).returns.imp
      intro _ unsearched
      obtain rfl : vector = none := by simpa using unsearched
      exact returns_all fun _ => (walk notSingleHop isWalk searched).imp fun _ holds => holds
  have routed : Returns (block.compileLevel env).result fun compiled => property compiled.1 := by
    unfold compileLevel
    split
    · next isSingleHop =>
      simp only [result_bind, result_logged, returns_bind, returns_ok]
      exact compileChain_returns property (single isSingleHop)
    · next notSingleHop =>
      split
      · next isWalk => exact walked (Bool.eq_false_iff.mpr notSingleHop) isWalk
      · next noWalk => exact compileChain_returns property (chain (Bool.eq_false_iff.mpr noWalk))
  unfold compile
  simp only [result_bind, result_pure, returns_bind]
  exact routed.imp fun _ holds => returns_all fun _ => holds

omit property in
/-- What each SELECT list for a query has, and keeps when a walk adds its depth and its path, the
final SELECT has. -/
theorem compile_columns {holds : List OutputColumn → Prop}
    (each : ∀ output : Output, output.aliases ⊆ block.aliases → Returns (output.columns block) holds)
    (trail : ∀ walk, block.walk = .ok walk → walk.hop ∈ block.traversals → ∀ columns,
      holds columns → holds (columns ++ walk.trailOutputs)) :
    Returns (block.compile env).result fun compiled => holds compiled.1.select.columns := by
  have chain (other : Block Nested) (aliases : other.aliases ⊆ block.aliases)
      (same : ∀ output : Output, output.columns other = output.columns block)
      (picks : Decisions) : Returns (other.chainLevel env picks).result fun level => holds level.select.columns := by
    unfold chainLevel
    simp only [result_bind, result_pure, result_chainSelect, returns_bind, returns_ok, returns_pure, same]
    refine returns_all fun _ => returns_all fun _ => ?_
    refine (each _ aliases).imp fun _ made => returns_all fun _ => returns_all fun _ => ?_
    exact returns_all fun _ => returns_all fun _ => made
  have plain : block.withoutWalks.aliases ⊆ block.aliases := by simp [aliases, withoutWalks, List.flatMap_map]
  refine compile_returns (fun level => holds level.select.columns)
    (fun _ _ _ => chain _ plain (fun _ => rfl) _) (fun _ isWalk _ => ?_)
    (fun _ _ _ => chain block (List.Subset.refl _) (fun _ => rfl) _)
  refine Returns.imp (@walkLevel_returns _ _ _ (fun _ => True) (holds ·.columns) isWalk
    fun walk found mem => ⟨returns_all fun _ => trivial, fun _ _ _ => returns_all
      fun _ => trivial, ?_⟩) fun _ parts => parts.2
  rw [Walk.result_select]
  simp only [returns_bind, returns_pure]
  have ends : [block.start.aliasName, walk.hop.nodeAlias] ⊆ block.aliases :=
    List.cons_subset.mpr ⟨List.mem_cons_self, by simpa using node_mem_aliases mem⟩
  refine (each _ ends).imp fun _ made => returns_all fun _ => returns_all fun _ => ?_
  exact returns_all fun _ => returns_all fun _ => trail walk found mem _ made

end Routes

end Block

namespace Query

section Nested

variable {opts : Options} {holds : Statement → Prop}

/-- A property of statements holds of every nested query, if it holds of each scoped level whose
nested statements have it. -/
theorem nest_ensures_of (closed : ∀ (block : Block Nested) (graphId : String) (level : Level Statement) (plan : Plan),
      (block.compile { opts, graphId }).result = .ok (level, plan) → level.Scoped holds → holds (.mk level))
    (query : Query) : Ensures (query.fold (nest opts)).outcome.result holds := by
  refine induction_nested (motive := fun query => Ensures (query.fold (nest opts)).outcome.result holds) ?_ query
  intro block ih
  have nested : ∀ nested ∈ (block.map (fold (nest opts))).nested, Ensures nested.outcome.result holds := by
    rw [nested_map]
    simpa using ih
  rw [fold_mk]
  unfold nest
  dsimp only
  split
  · simp
  · next graphId _ =>
    simp only [result_bind, result_pure, ensures_bind]
    apply (Block.compile_ensures nested { opts, graphId }).attach.imp
    rintro ⟨level, plan⟩ ⟨compiled, sound⟩
    exact closed _ graphId level plan compiled sound.1

theorem nested_ensures_of (each : ∀ query : Query, Ensures (query.fold (nest opts)).outcome.result holds)
    (query : Query) :
    ∀ nested ∈ (query.nested opts).nested, Ensures nested.outcome.result holds := by
  intro nested mem
  rw [Query.nested, nested_map] at mem
  obtain ⟨inner, -, rfl⟩ := mem_map.mp mem
  exact each inner

end Nested

variable (opts : Options)

theorem nest_ensures (query : Query) : Ensures (query.fold (nest opts)).outcome.result Statement.WellScoped :=
  nest_ensures_of (fun _ _ level _ _ reaches => (Statement.wellScoped_mk level).mpr reaches) query

theorem nested_ensures (query : Query) :
    ∀ nested ∈ (query.nested opts).nested, Ensures nested.outcome.result Statement.WellScoped :=
  nested_ensures_of (nest_ensures opts) query

theorem compileLevel_ensures (env : Setting) (query : Query) :
    Ensures ((query.nested opts).compileLevel env).result (Sound Statement.WellScoped) :=
  Block.compileLevel_ensures (query.nested_ensures opts) env

theorem compileBlock_ensures (env : Setting) (query : Query) :
    Ensures ((query.nested opts).compile env).result (Sound Statement.WellScoped) :=
  Block.compile_ensures (query.nested_ensures opts) env

/-- Every statement of a query is well scoped. -/
theorem statement_ensures (graphId : String) (query : Query) :
    Ensures (query.statement opts graphId).result fun compiled => compiled.1.WellScoped := by
  unfold statement
  simp only [result_bind, result_logged, result_pure, ensures_bind, ensures_ok]
  apply (query.compileBlock_ensures opts { opts, graphId }).imp
  rintro ⟨level, plan⟩ sound
  exact (Statement.wellScoped_mk level).mpr sound.1

theorem compile_ensures (graphId : String) (query : Query) :
    Ensures (query.compile opts graphId).result fun _ => True := by
  unfold compile
  simp only [result_bind, ensures_bind]
  exact (query.statement_ensures opts graphId).imp fun _ _ => trivial

theorem compileLeaf_ensures (graphId : String) (index : Nat) (query : Query) :
    Ensures (query.compileLeaf opts graphId index).result fun _ => True := by
  unfold compileLeaf
  simp only [result_bind, ensures_bind]
  apply (query.compileBlock_ensures opts _).imp
  rintro ⟨level, plan⟩ _
  dsimp only
  split <;> trivial

end Query

theorem orderColumn_ensures (projections : List Projection) (order : Order) :
    Ensures (orderColumn projections order) fun _ => True := by
  unfold orderColumn
  rw [ensures_bind]
  apply order.field.resolve_ensures.imp
  intro target _
  dsimp only
  split <;> simp

theorem orderColumns_ensures (projections : List Projection) (orders : List Order) :
    Ensures (orderColumns projections orders) fun keys => keys.isEmpty = orders.isEmpty := by
  unfold orderColumns
  split
  · simp
  · split
    · simp
    · apply (ensures_mapM fun order _ => orderColumn_ensures projections order).imp
      intro keys each
      rw [Bool.eq_iff_iff, isEmpty_iff_length_eq_zero, isEmpty_iff_length_eq_zero, each.length_eq]

theorem Compound.check_eq_ok {keys : List SortKey} {orderBy : List Order}
    (empty : keys.isEmpty = orderBy.isEmpty) (head : Member) (rest : List (SetOperator × Member))
    (op : SetOperator) (left right : Plan) (bounds : Option Bounds) :
    (Compound.mk head rest keys bounds).check (combinedPlan op left right orderBy bounds) = .ok () := by
  have asks := combinedPlan_asks op left right orderBy bounds
  rw [← empty] at asks
  exact asks.checkClauses_eq_ok

theorem SetOperand.combine_ensures (opts : Options) (graphId : String) (operand : SetOperand)
    (index : Nat) : Ensures (operand.combine opts graphId index).result fun _ => True := by
  induction operand generalizing index with
  | query query => simpa [SetOperand.combine] using query.compileLeaf_ensures opts graphId index
  | operation op left right orderBy limit offset ofLeft ofRight =>
    simp only [SetOperand.combine, SetOperation.combine, result_bind, ensures_bind]
    apply (ofLeft index).imp
    intro first _
    apply (ofRight _).imp
    intro second _
    apply (orderColumns_ensures left.leftmost.block.projection orderBy).imp
    intro keys empty
    rw [show Traced.result (liftM (Compound.check _ _)) = .ok () from
      Compound.check_eq_ok empty _ _ op first.plan second.plan _]
    trivial

namespace SetOperation

theorem checkHoisting_ensures (operation : SetOperation) (dialect : Dialect) :
    Ensures (operation.checkHoisting dialect) fun _ => True := by
  unfold checkHoisting
  split
  · simp
  · dsimp only
    split <;> simp

theorem compile_ensures (opts : Options) (graphId : String) (operation : SetOperation) :
    Ensures (operation.compile opts graphId).result fun _ => True := by
  have widths : Ensures operation.checkWidths fun _ => True := by
    unfold checkWidths
    dsimp only
    split <;> simp
  unfold compile statement
  simp only [result_bind, result_logged, ensures_bind, ensures_ok]
  apply widths.imp
  intro _ _
  apply (operation.checkHoisting_ensures opts.dialect).imp
  intro _ _
  have combined := SetOperand.combine_ensures opts graphId (.operation operation) 0
  simp only [SetOperand.combine, result_bind, ensures_bind] at combined
  exact combined.imp fun _ _ => trivial

end SetOperation

/-- What fails only for reasons of the caller breaks no promise. -/
theorem Ensures.ne_invariant {α : Type} {result : Attempt α} {property : α → Prop}
    (ensured : Ensures result property) (stage message details : String) :
    result ≠ .error (.invariant stage message details) := by
  intro failed
  have fixable := ensured.of_error failed
  simp [CompileError.isCallerFixable] at fixable

/-- No compilation breaks a promise of the compiler. Queries, set operations and nested queries fail
only for reasons that the caller can mend, and a level always has the clauses of its plan. -/
theorem compile_ne_invariant (opts : Options) (graphId tag : String) (query : Query)
    (operation : SetOperation) (stage message details : String) :
    (query.compile opts graphId).result ≠ .error (.invariant stage message details) ∧
      (operation.compile opts graphId).result ≠ .error (.invariant stage message details) ∧
      (query.fold (Block.nest opts)).outcome.result ≠
        .error (.invariant stage message details) ∧
      Ensures ((query.nested opts).compileLevel { opts, graphId, tag }).result
        fun (level, plan) => level.select.check plan = .ok () := by
  refine ⟨(query.compile_ensures opts graphId).ne_invariant stage message details,
    (operation.compile_ensures opts graphId).ne_invariant stage message details,
    (query.nest_ensures opts).ne_invariant stage message details, ?_⟩
  apply (query.compileLevel_ensures opts { opts, graphId, tag }).imp
  rintro ⟨level, plan⟩ sound
  exact sound.2

/-- For each person, the number of friends, if there is a post in another graph. -/
def friendCounts : Query :=
  let posts : Query := .mk ((Block.ofKind "p" "post").withGraph "posts")
  let friends := (Block.ofKind "a" "person").traverse (.outwardFrom "a" "e" "knows" "b" "person")
  .mk { friends.filterBy .node "b" (.subquery posts false) with
    projection := [⟨"person", .field (.ofColumn "a" "id")⟩, ⟨"friends", .aggregate ⟨.count, .ofAlias "b"⟩⟩]
    groupBy := [.ofColumn "a" "id"] }

end GraphSql
