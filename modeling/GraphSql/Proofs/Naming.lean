import GraphSql.Proofs.Compile
import GraphSql.Proofs.Printing.Statement

namespace GraphSql

open Identifier List Traced Traversal

variable {aliasName : String} {hop : Traversal} {σ : Type}
variable {block : Block Nested} {env : Setting} {picks : Decisions}

namespace IsShaped

theorem of_check {name : String} (valid : check name = .ok ()) : IsShaped name := by
  unfold check at valid
  split at valid
  · contradiction
  · split at valid
    · contradiction
    · split at valid
      · contradiction
      · next shaped => simpa [IsShaped] using shaped

theorem append {name rest : String} (shaped : IsShaped name)
    (continues : rest.toList.all Identifier.isRest = true) : IsShaped (name ++ rest) := by
  unfold IsShaped at shaped ⊢
  cases found : name.toList with
  | nil => simp [found, hasShape] at shaped
  | cons first others =>
    rw [found] at shaped
    rw [String.toList_append, found]
    simp only [hasShape, cons_append, Bool.and_eq_true, all_append] at shaped ⊢
    exact ⟨shaped.1, shaped.2, continues⟩

end IsShaped

/-- The name is written as a word, and an underscore keeps it apart from every keyword. -/
structure IsJoined (name : String) : Prop where
  shaped : IsShaped name
  underscore : '_' ∈ name.toList

/-- A name with an underscore is no joining word. -/
theorem IsJoined.isFree {name : String} (isJoined : IsJoined name) : IsFree name :=
  ⟨isJoined.shaped, Lexeme.isJoining_eq_false isJoined.underscore (by decide)⟩

theorem isJoined_carriedName (shaped : IsShaped aliasName) (column : Column) :
    IsJoined (carriedName aliasName column) :=
  ⟨(shaped.append rfl).append (by cases column <;> rfl), by simp [carriedName]⟩

theorem isJoined_distanceName (shaped : IsShaped aliasName) : IsJoined (distanceName aliasName) :=
  ⟨shaped.append rfl, by simp [distanceName]⟩

theorem isJoined_countName (index : Nat) : IsJoined (Block.countName index) := by
  have start : IsShaped "agg_" := rfl
  exact ⟨start.append (isRest_toString index), by simp [Block.countName, toString]⟩

/-- The tag of row sets may stand before a name. -/
def IsTag (tag : String) : Prop := tag = "" ∨ IsShaped tag

theorem IsTag.append {tag name : String} (isTag : IsTag tag) (shaped : IsShaped name) : IsShaped (tag ++ name) := by
  rcases isTag with rfl | tagShaped
  · simpa using shaped
  · exact tagShaped.append shaped.isRest

theorem isJoined_rowSetName {tag : String} (isTag : IsTag tag) (shaped : IsShaped aliasName) :
    IsJoined (rowSetName tag aliasName) := by
  have start : IsShaped (tag ++ "cte_") := isTag.append rfl
  exact ⟨start.append shaped.isRest, by simp [rowSetName]⟩

theorem isTag_leafTag (strategy : CompoundStrategy) (index : Nat) : IsTag (leafTag strategy index) := by
  cases strategy with
  | hoisted =>
    have start : IsShaped "s" := rfl
    exact .inr ((start.append (isRest_toString index)).append rfl)
  | parenthesized => exact .inl rfl

theorem isJoined_recursiveName {tag : String} (isTag : IsTag tag) : IsJoined (tag ++ "recursive_cte") :=
  ⟨isTag.append rfl, by simp⟩

/-- The aliases of a hop are shaped. -/
structure Traversal.Shaped (hop : Traversal) : Prop where
  edge : IsShaped hop.edgeAlias
  node : IsShaped hop.nodeAlias
  joinFrom : IsShaped hop.joinFrom

/-- The aliases of a query are shaped. -/
structure Block.Shaped (block : Block σ) : Prop where
  start : IsShaped block.start.aliasName
  hops : ∀ hop ∈ block.traversals, hop.Shaped

theorem Block.Shaped.alias {block : Block σ} (shaped : block.Shaped) :
    ∀ aliasName ∈ block.aliases, IsShaped aliasName := by
  refine forall_mem_cons.mpr ⟨shaped.start, forall_mem_flatMap.mpr fun hop mem => ?_⟩
  simpa using ⟨(shaped.hops hop mem).edge, (shaped.hops hop mem).node⟩

theorem Block.Shaped.readFrom {block : Block σ} (shaped : block.Shaped) (picks : Decisions)
    (aliasName : String) : IsShaped (block.readFrom picks aliasName) := by
  unfold Block.readFrom Block.lastAlias
  split
  · cases last : block.traversals.getLast? with
    | none => exact shaped.start
    | some hop => exact (shaped.hops hop (mem_of_getLast? last)).node
  · cases block.place aliasName with
    | start _ owner | unbound _ _ owner => simpa [owner] using shaped.start
    | node hop mem _ owner | edge hop mem _ owner =>
      simpa [owner] using (shaped.hops hop mem).node

theorem JoinsFrom.shaped {joinable : List String} {traversals : List Traversal}
    (joins : JoinsFrom joinable traversals) (known : ∀ name ∈ joinable, IsShaped name)
    (nodes : ∀ hop ∈ traversals, IsShaped hop.nodeAlias) :
    ∀ hop ∈ traversals, IsShaped hop.joinFrom := by
  induction traversals generalizing joinable with
  | nil => simp
  | cons hop rest ih =>
    rw [forall_mem_cons] at nodes ⊢
    exact ⟨known _ joins.1, ih joins.2 (forall_mem_cons.mpr ⟨nodes.1, known⟩) nodes.2⟩

/-- The aliases of a bound query are shaped. -/
theorem Block.Bound.shaped {block : Block σ} (bound : block.Bound) : block.Shaped := by
  have valid : ∀ name ∈ block.start.aliasName :: block.traversals.flatMap names,
      IsShaped name := fun name mem => .of_check (bound.fresh.valid name mem)
  rw [forall_mem_cons, forall_mem_flatMap] at valid
  have edges : ∀ hop ∈ block.traversals, IsShaped hop.edgeAlias := fun hop mem => valid.2 hop mem _ (by simp [names])
  have nodes : ∀ hop ∈ block.traversals, IsShaped hop.nodeAlias := fun hop mem => valid.2 hop mem _ (by simp [names])
  have joins := bound.joins.shaped (forall_mem_singleton.mpr valid.1) nodes
  exact ⟨valid.1, fun hop mem => ⟨edges hop mem, nodes hop mem, joins hop mem⟩⟩

namespace Block

theorem generated_tableColumns (block : Block σ) (picks : Decisions) (shaped : IsShaped aliasName) :
    ∀ column ∈ block.tableColumns picks aliasName, column.Generated := by
  intro column mem
  obtain ⟨carried, -, rfl⟩ := mem_map.mp mem
  exact (isJoined_carriedName shaped carried).isFree

theorem vectorParts_named (picks : Decisions) (shaped : IsShaped aliasName) :
    (∀ column ∈ (picks.vectorParts aliasName).columns, column.Generated) ∧
      ∀ join ∈ (picks.vectorParts aliasName).joins, join.source.Named := by
  unfold Decisions.vectorParts
  split
  · next vector _ =>
    split
    · next same =>
      refine ⟨forall_mem_singleton.mpr ?_, forall_mem_singleton.mpr trivial⟩
      exact (isJoined_distanceName (same ▸ shaped)).isFree
    · simp
  · simp

theorem startRowSet_named (isTag : IsTag env.tag) (shaped : block.Shaped) :
    Returns (block.startRowSet env picks).result RowSet.Named := by
  unfold startRowSet
  simp only [result_bind, result_pure, returns_bind, returns_ok]
  refine returns_all fun placed => ⟨(isJoined_rowSetName isTag shaped.start).isFree, ?_⟩
  obtain ⟨columns, joins⟩ := vectorParts_named picks shaped.start
  refine forall_mem_singleton.mpr ⟨?_, trivial, joins⟩
  exact forall_mem_append.mpr ⟨block.generated_tableColumns picks shaped.start, columns⟩

theorem generated_handedColumns (shaped : IsShaped hop.joinFrom) :
    ∀ column ∈ handedColumns picks hop, column.Generated := by
  unfold handedColumns
  split
  · exact forall_mem_singleton.mpr trivial
  · intro column mem
    obtain ⟨key, -, rfl⟩ := mem_map.mp mem
    exact (isJoined_carriedName shaped key).isFree

theorem hopRowSet_named (isTag : IsTag env.tag) (shaped : hop.Shaped) (later : List Traversal) :
    Returns (block.hopRowSet env picks hop later).result RowSet.Named := by
  unfold hopRowSet
  simp only [result_bind, result_pure, returns_bind, returns_ok]
  refine returns_all fun conditions => ⟨(isJoined_rowSetName isTag shaped.node).isFree, ?_⟩
  obtain ⟨columns, joins⟩ := vectorParts_named picks shaped.node
  refine forall_mem_singleton.mpr ⟨?_, ?_, ?_⟩
  · refine forall_mem_append.mpr ⟨forall_mem_append.mpr ⟨?_, ?_⟩, columns⟩
    · exact forall_mem_append.mpr ⟨generated_handedColumns shaped.joinFrom,
        block.generated_tableColumns picks shaped.edge⟩
    · exact block.generated_tableColumns picks shaped.node
  · dsimp only
    unfold hopSource
    dsimp only
    split <;> exact (⟨rfl, rfl⟩ : IsFree "src")
  · refine forall_mem_append.mpr ⟨?_, joins⟩
    simp [Traversal.joins, Source.Named]

theorem countRowSet_named (isTag : IsTag env.tag) (shaped : block.Shaped) (hop : Traversal)
    {counts : Counts} (node : IsShaped counts.nodeAlias) :
    Returns (block.countRowSet env picks hop counts).result RowSet.Named := by
  have aliasName : IsShaped counts.aliasName := node.append rfl
  unfold countRowSet
  simp only [result_bind, result_pure, returns_bind, returns_ok]
  refine returns_all fun conditions => ⟨(isJoined_rowSetName isTag aliasName).isFree, ?_⟩
  refine forall_mem_singleton.mpr ⟨?_, trivial, forall_mem_singleton.mpr trivial⟩
  refine forall_mem_append.mpr ⟨?_, ?_⟩
  · refine forall_mem_cons.mpr ⟨(isJoined_carriedName shaped.start .id).isFree, ?_⟩
    exact forall_mem_singleton.mpr (isJoined_carriedName shaped.start .kind).isFree
  · intro column mem
    obtain ⟨counted, -, rfl⟩ := mem_map.mp mem
    exact (isJoined_countName counted.1).isFree

end Block

namespace Output

variable {output : Output}

theorem columns_shaped (block : Block σ) :
    Returns (output.columns block) fun columns => ∀ column ∈ columns, column.Shaped := by
  have gives : output.GivesColumns OutputColumn.Shaped :=
    ⟨fun _ _ => returns_all fun _ => trivial, fun _ => returns_all fun _ _ _ => ⟨trivial, fun _ => trivial⟩,
      fun _ => returns_all fun _ _ _ => ⟨trivial, fun _ => trivial⟩⟩
  exact columns_each gives (fun _ _ _ _ => trivial) (fun _ _ => returns_all fun _ => trivial) block

end Output

namespace Block

theorem chainSelect_named : Returns (block.chainSelect env picks).result (Select.Named OutputColumn.Shaped) := by
  rw [result_chainSelect]
  simp only [returns_bind, returns_pure]
  apply (Output.columns_shaped block).imp
  intro columns shaped
  refine returns_all fun conditions => returns_all fun groupBy =>
    returns_all fun having => returns_all fun orderBy => ⟨shaped, trivial, ?_⟩
  dsimp only
  split
  · simp
  · intro join mem
    obtain ⟨hop, -, rfl⟩ := mem_map.mp mem
    trivial

theorem chainLevel_named (isTag : IsTag env.tag) (shaped : block.Shaped) :
    Returns (block.chainLevel env picks).result Level.Named := by
  refine (chainLevel_returns (startRowSet_named isTag shaped) (fun _ _ hop mem same => ?_)
    (fun hop mem later => hopRowSet_named isTag (shaped.hops hop mem) later)
    chainSelect_named).imp fun _ parts => ⟨parts.1, parts.2⟩
  exact countRowSet_named isTag shaped hop (same ▸ (shaped.hops hop mem).node)

end Block

namespace Walk

variable {walk : Walk}

theorem generated_trailColumns (depth path : Term) : ∀ column ∈ walk.trailColumns depth path, column.Generated := by
  refine forall_mem_cons.mpr ⟨(⟨rfl, rfl⟩ : IsFree depthName), ?_⟩
  split
  · exact forall_mem_singleton.mpr (⟨rfl, rfl⟩ : IsFree pathName)
  · simp

section

variable (start : IsShaped block.start.aliasName)

include start

theorem startMember_named (node : IsShaped walk.hop.nodeAlias) :
    Returns (walk.startMember block env picks).result (Select.Named OutputColumn.Generated) := by
  unfold startMember
  simp only [result_bind, result_pure, returns_bind, returns_ok]
  refine returns_all fun placed => ⟨?_, trivial, by simp⟩
  refine forall_mem_append.mpr ⟨forall_mem_append.mpr ⟨?_, ?_⟩, ?_⟩
  · exact block.generated_tableColumns picks start
  · exact block.generated_tableColumns picks node
  · exact generated_trailColumns _ _

theorem stepMember_named (node : IsShaped hop.nodeAlias) (guards : Conditions) :
    Returns (walk.stepMember block env picks hop guards).result (Select.Named OutputColumn.Generated) := by
  unfold stepMember
  simp only [result_bind, result_pure, returns_bind, returns_ok]
  refine returns_all fun conditions => ⟨?_, (⟨rfl, rfl⟩ : IsFree "r"), ?_⟩
  · refine forall_mem_append.mpr ⟨forall_mem_append.mpr ⟨?_, ?_⟩, ?_⟩
    · intro column mem
      obtain ⟨carried, -, rfl⟩ := mem_map.mp mem
      exact (isJoined_carriedName start carried).isFree
    · exact block.generated_tableColumns picks node
    · exact generated_trailColumns _ _
  · simp [joins, Source.Named]

end

theorem nodeAlias_steps (strategy : WalkStrategy) (hop : Traversal) :
    ∀ step ∈ steps strategy hop, step.1.nodeAlias = hop.nodeAlias :=
  forall_mem_steps strategy rfl (fun _ => rfl) fun _ => rfl

theorem select_named : Returns (walk.select block env picks).result (Select.Named OutputColumn.Shaped) := by
  unfold select
  simp only [result_bind, result_pure, returns_bind, returns_ok]
  apply (Output.columns_shaped block).imp
  intro columns shaped
  refine returns_all fun conditions => returns_all fun groupBy =>
    returns_all fun having => returns_all fun orderBy => ⟨?_, trivial, by simp⟩
  refine forall_mem_append.mpr ⟨shaped, forall_mem_append.mpr ⟨?_, ?_⟩⟩
  all_goals
    intro column mem
    obtain ⟨name, -, rfl⟩ := mem_map.mp mem
    trivial

end Walk

namespace Block

theorem walkLevel_named (isWalk : block.isWalk = true) (isTag : IsTag env.tag) (shaped : block.Shaped) :
    Returns (block.walkLevel env picks).result Level.Named := by
  refine (walkLevel_returns isWalk fun walk _ mem => ⟨Walk.startMember_named shaped.start
    (shaped.hops walk.hop mem).node, fun strategy step isStep => ?_, Walk.select_named⟩).imp
    fun _ parts => ⟨fun rowSet made => ?_, parts.2⟩
  · refine Walk.stepMember_named shaped.start ?_ _
    exact Walk.nodeAlias_steps strategy _ step isStep ▸ (shaped.hops walk.hop mem).node
  · obtain ⟨name, members⟩ := parts.1 rowSet made
    exact ⟨name ▸ (isJoined_recursiveName isTag).isFree, members⟩

/-- Every compiled level generates free names. -/
theorem compile_named (block : Block Nested) (env : Setting) (isTag : IsTag env.tag) :
    Returns (block.compile env).result fun (level, _) => level.Named := by
  have shaped (block : Block Nested) {vector : Option VectorSearch}
      (searched : (block.analyzeReferences env.opts.dialect).result = .ok vector) :
      block.Shaped :=
    ((block.analyzeReferences_ensures env.opts.dialect).of_ok searched).1.shaped
  exact compile_returns Level.Named (fun _ _ searched => chainLevel_named isTag (shaped _ searched))
    (fun _ isWalk searched => walkLevel_named isWalk isTag (shaped _ searched))
    (fun _ _ searched => chainLevel_named isTag (shaped _ searched))

end Block

end GraphSql
