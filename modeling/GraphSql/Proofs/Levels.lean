import GraphSql.Proofs.Compile

namespace GraphSql

open Block List Traced

variable {known : List Declared} {outputs : List String} {env : Setting}

section Nested

variable {σ : Type} {holds : σ → Prop}

/-- The statements that are nested in the conditions of a SELECT. -/
def Select.nested (select : Select σ) : List σ :=
  (select.joins.flatMap Join.conditions ++ select.conditions ++ select.having.toList).flatMap Condition.nested

theorem Join.Extend.nested {reach final : List Visible} {joins : List (Join σ)}
    (extend : Join.Extend holds known reach joins final) :
    ∀ join ∈ joins, ∀ condition ∈ join.conditions, ∀ statement ∈ condition.nested, holds statement := by
  induction joins generalizing reach with
  | nil => simp
  | cons join rest ih =>
    obtain ⟨visible, -, admitted, after⟩ := extend
    refine forall_mem_cons.mpr ⟨?_, ih after⟩
    exact fun condition mem => (admitted condition mem).nested

theorem Select.Scoped.nested {select : Select σ} (isScoped : select.Scoped holds known outputs) :
    ∀ statement ∈ select.nested, holds statement := by
  obtain ⟨first, reach, -, extend, reads, -⟩ := isScoped
  intro statement member
  obtain ⟨condition, mem, inCondition⟩ := mem_flatMap.mp member
  rcases mem_append.mp mem with before | inHaving
  · rcases mem_append.mp before with inJoins | inWhere
    · obtain ⟨join, inJoin, checked⟩ := mem_flatMap.mp inJoins
      exact extend.nested join inJoin condition checked statement inCondition
    · exact (reads.conditions condition inWhere).nested statement inCondition
  · exact (reads.having condition (by simpa using inHaving)).nested statement inCondition

/-- The statements that are nested in a scoped level have its property. -/
theorem Level.Scoped.nested {level : Level σ} (isScoped : level.Scoped holds) :
    ∀ select ∈ level.selects, ∀ statement ∈ select.nested, holds statement := by
  intro select mem
  obtain ⟨known, outputs, -, stands⟩ := isScoped.selects (fun _ => True) (fun _ _ _ _ _ _ => trivial) select mem
  exact stands.nested

end Nested

/-- Every level of a statement has the property, together with the query that it is made for and the
graph of this query. A nested statement is made for a nested query, which names its own graph. -/
inductive Statement.EachLevel (holds : String → Query → Level Statement → Prop) :
    String → Query → Statement → Prop where
  | mk {graphId : String} {query : Query} {level : Level Statement} (own : holds graphId query level)
      (queryOf : Statement → Query) (graphOf : Statement → String)
      (origin : ∀ select ∈ level.selects, ∀ statement ∈ select.nested, queryOf statement ∈ query.block.nested ∧
          (queryOf statement).block.graphId = some (graphOf statement))
      (nested : ∀ select ∈ level.selects, ∀ statement ∈ select.nested,
        EachLevel holds (graphOf statement) (queryOf statement) statement) :
      EachLevel holds graphId query (.mk level)

/-- A level that has some of the SELECTs of another one has the property throughout, if it has the
property itself. -/
theorem Statement.EachLevel.of_selects {holds : String → Query → Level Statement → Prop}
    {graphId : String} {query : Query} {level other : Level Statement}
    (each : (Statement.mk level).EachLevel holds graphId query) (own : holds graphId query other)
    (included : other.selects ⊆ level.selects) :
    (Statement.mk other).EachLevel holds graphId query := by
  cases each with
  | mk _ queryOf graphOf origin nested =>
    exact .mk own queryOf graphOf (fun select mem => origin select (included mem))
      fun select mem => nested select (included mem)

namespace Query

variable {opts : Options} {holds : String → Query → Level Statement → Prop}

/-- A level whose nested statements are made for nested queries has the property throughout, if it
has the property itself. -/
theorem eachLevel_of_scoped {query : Query} {graphId : String} {level : Level Statement}
    (own : holds graphId query level)
    (isScoped : level.Scoped fun statement => ∃ inner ∈ query.block.nested, ∃ own,
      inner.block.graphId = some own ∧ statement.EachLevel holds own inner) :
    (Statement.mk level).EachLevel holds graphId query := by
  have someQuery : Nonempty Query := ⟨query⟩
  have origin : ∀ statement, (∃ select ∈ level.selects, statement ∈ select.nested) →
      ∃ inner own, inner ∈ query.block.nested ∧ inner.block.graphId = some own ∧
        statement.EachLevel holds own inner := by
    rintro statement ⟨select, mem, nested⟩
    obtain ⟨inner, member, own, graph, each⟩ := isScoped.nested select mem statement nested
    exact ⟨inner, own, member, graph, each⟩
  choose! queryOf graphOf spec using origin
  refine .mk own queryOf graphOf ?_ ?_
  · intro select mem statement nested
    obtain ⟨member, graph, -⟩ := spec statement ⟨select, mem, nested⟩
    exact ⟨member, graph⟩
  · intro select mem statement nested
    exact (spec statement ⟨select, mem, nested⟩).2.2

theorem compile_eachLevel_of {query : Query}
    (own : ∀ level plan, ((query.nested opts).compile env).result = .ok (level, plan) → holds env.graphId query level)
    (nested : ∀ inner ∈ query.block.nested, Ensures (inner.fold (nest opts)).outcome.result fun statement =>
        ∃ own, inner.block.graphId = some own ∧ statement.EachLevel holds own inner) :
    Ensures ((query.nested opts).compile env).result fun compiled =>
      (Statement.mk compiled.1).EachLevel holds env.graphId query := by
  have origins : ∀ outcome ∈ (query.nested opts).nested,
      Ensures outcome.outcome.result fun statement => ∃ inner ∈ query.block.nested, ∃ own,
        inner.block.graphId = some own ∧ statement.EachLevel holds own inner := by
    intro outcome member
    rw [Query.nested, nested_map] at member
    obtain ⟨inner, mem, rfl⟩ := mem_map.mp member
    exact (nested inner mem).imp fun _ spec => ⟨inner, mem, spec⟩
  apply (Block.compile_ensures origins env).attach.imp
  rintro ⟨level, plan⟩ ⟨compiled, sound⟩
  exact eachLevel_of_scoped (own level plan compiled) sound.1

-- The row sets of nested queries have no tag.
variable (each : ∀ (query : Query) (graphId : String) (level : Level Statement) (plan : Plan),
  ((query.nested opts).compile { opts, graphId }).result = .ok (level, plan) → holds graphId query level)

include each

theorem nest_eachLevel (query : Query) : Ensures (query.fold (nest opts)).outcome.result fun statement =>
      ∃ own, query.block.graphId = some own ∧ statement.EachLevel holds own query := by
  refine induction_nested (motive := fun query =>
    Ensures (query.fold (nest opts)).outcome.result fun statement =>
      ∃ own, query.block.graphId = some own ∧ statement.EachLevel holds own query) ?_ query
  intro block ih
  rw [fold_mk]
  unfold nest
  dsimp only
  split
  · simp
  · next graphId named =>
    simp only [result_bind, result_pure, ensures_bind, ensures_ok]
    have compiles : Ensures (((Query.mk block).nested opts).compile { opts, graphId }).result
        fun compiled => (Statement.mk compiled.1).EachLevel holds graphId (.mk block) :=
      compile_eachLevel_of (each (.mk block) graphId) ih
    exact compiles.imp fun compiled spec => ⟨graphId, named, spec⟩

/-- What the level of each query has, every level of a compiled query has. -/
theorem compile_eachLevel {query : Query}
    (own : ∀ level plan, ((query.nested opts).compile env).result = .ok (level, plan) →
      holds env.graphId query level) :
    Ensures ((query.nested opts).compile env).result fun compiled =>
      (Statement.mk compiled.1).EachLevel holds env.graphId query :=
  compile_eachLevel_of own fun inner _ => nest_eachLevel each inner

theorem statement_eachLevel (query : Query) (graphId : String) :
    Ensures (query.statement opts graphId).result fun compiled => compiled.1.EachLevel holds graphId query := by
  have compiles : Ensures ((query.nested opts).compile { opts, graphId }).result
      fun compiled => (Statement.mk compiled.1).EachLevel holds graphId query :=
    compile_eachLevel each (each query graphId)
  unfold statement
  simp only [result_bind, result_logged, result_pure, ensures_bind, ensures_ok]
  exact compiles.imp fun _ spec => spec

end Query

end GraphSql
