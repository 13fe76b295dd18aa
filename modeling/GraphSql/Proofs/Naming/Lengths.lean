import GraphSql.Proofs.Naming.RowSets

namespace GraphSql

open Block List OutputColumn RowSet Traced

variable {σ : Type} {name : String}

/-- What PostgreSQL keeps of a name. -/
def keptBytes (name : String) : List UInt8 := name.toByteArray.data.toList.take maxIdentifierBytes

/-- The name is kept as it is. -/
def IsKept (name : String) : Prop := name.utf8ByteSize ≤ maxIdentifierBytes

theorem keptBytes_injective {other : String} (kept : IsKept name) (otherKept : IsKept other)
    (same : keptBytes name = keptBytes other) : name = other := by
  rw [keptBytes, keptBytes, take_of_length_le kept, take_of_length_le otherKept] at same
  exact String.toByteArray_inj.mp (ByteArray.ext (Array.toList_inj.mp same))

/-- The name is kept with whatever is added to it. -/
def IsShort (name : String) : Prop := name.utf8ByteSize + 11 ≤ maxIdentifierBytes

instance : DecidablePred IsShort := fun _ => inferInstanceAs (Decidable (_ ≤ _))

theorem IsShort.kept (short : IsShort name) : IsKept name := Nat.le_of_add_right_le short

theorem IsShort.append {rest : String} (short : IsShort name) (added : rest.utf8ByteSize ≤ 11) :
    IsKept (name ++ rest) := by
  simp only [IsShort, IsKept, String.utf8ByteSize_append] at *
  omega

theorem IsShort.carriedName (short : IsShort name) (column : Column) : IsKept (carriedName name column) := by
  rw [GraphSql.carriedName, String.append_assoc]
  exact short.append (by cases column <;> decide)

theorem IsShort.distanceName (short : IsShort name) : IsKept (distanceName name) := short.append (by decide)

namespace Block

/-- The names of the caller are short, and so are the numbers of its projections. -/
structure IsShort (block : Block σ) : Prop where
  aliases : ∀ name ∈ block.aliases, GraphSql.IsShort name
  outputs : ∀ name ∈ block.projection.map Projection.name ++
    block.selectedFields.map SelectedField.name ++ block.traversals.flatMap walkAliases,
    GraphSql.IsShort name
  positions : ∀ index < block.projection.length, IsKept (countName index)

theorem IsShort.outputsKept {block : Block σ} (short : block.IsShort) :
    block.Outputs fun names => ∀ name ∈ names, IsKept name where
  carried names carries name mem := by
    obtain ⟨aliases, -, bound, each⟩ := carries
    obtain ⟨aliasName, member, carried⟩ := each.exists_alias mem
    have shortAlias := short.aliases aliasName (bound member)
    rcases mem_append.mp carried with ofColumn | ofDistance
    · obtain ⟨column, -, rfl⟩ := mem_map.mp ofColumn
      exact shortAlias.carriedName column
    · rw [mem_singleton.mp ofDistance]
      exact shortAlias.distanceName
  counted node columns found := by
    have start := short.aliases block.start.aliasName mem_cons_self
    refine forall_mem_append.mpr ⟨forall_mem_pair.mpr ⟨start.carriedName _, start.carriedName _⟩,
      forall_mem_map.mpr fun entry mem => short.positions _ ?_⟩
    simpa using ((countColumns_sorted found).1 entry mem).2
  walked walk picks member _ := by
    have start := short.aliases block.start.aliasName mem_cons_self
    have node := short.aliases walk.hop.nodeAlias (node_mem_aliases member)
    refine forall_mem_append.mpr ⟨forall_mem_append.mpr ⟨forall_mem_map.mpr fun _ _ =>
      start.carriedName _, forall_mem_map.mpr fun _ _ => node.carriedName _⟩, ?_⟩
    refine forall_mem_cons.mpr ⟨(by decide : Walk.depthName.utf8ByteSize ≤ 63), ?_⟩
    split
    · exact forall_mem_singleton.mpr (by decide : Walk.pathName.utf8ByteSize ≤ 63)
    · simp

end Block

namespace Output

/-- No name of the columns is cut. -/
def KeepsNames (columns : List OutputColumn) : Prop :=
  ∀ column ∈ columns, ∀ reach, ∀ name ∈ column.names reach, IsKept name

theorem keepsNames_single (short : IsShort name) (term : Term) : KeepsNames [.quoted term name] :=
  forall_mem_singleton.mpr fun _ => forall_mem_singleton.mpr short.kept

variable (output : Output)

theorem fieldColumns_kept (short : IsShort name) (field : Field) :
    Returns (output.fieldColumns name field) KeepsNames := by
  simp only [fieldColumns, returns_bind]
  refine returns_all fun target => ?_
  cases target with
  | whole =>
    simp only [returns_bind, returns_pure]
    refine returns_all fun columns => returns_all fun distances =>
      forall_mem_append.mpr ⟨forall_mem_map.mpr fun entry _ _ => ?_, forall_mem_map.mpr fun _ _ _ => ?_⟩
    · exact forall_mem_singleton.mpr (short.carriedName entry.1)
    · exact forall_mem_singleton.mpr short.distanceName
  | column _ | property _ =>
    simp only [returns_bind, returns_pure]
    exact returns_all (keepsNames_single short)

/-- Without a projection, columns keep the names under which they are carried. -/
theorem everyColumns_kept (short : IsShort name) : Returns (output.entryColumns (.every name)) KeepsNames := by
  have distances : Returns (output.distanceOf name) fun terms => KeepsNames (terms.map .plain) := by
    unfold distanceOf distance
    split
    · split
      · rw [returns_bind]
        split
        · exact forall_mem_singleton.mpr fun _ => forall_mem_singleton.mpr short.distanceName
        · trivial
      · exact forall_mem_nil _
    · exact forall_mem_nil _
  simp only [entryColumns, Relations.allColumns, returns_bind, returns_pure]
  apply (output.relations.lookup_ensures name).returns.imp
  rintro carried ⟨-, rfl⟩
  refine distances.imp fun _ ofDistances => forall_mem_append.mpr ⟨?_, ofDistances⟩
  exact forall_mem_map.mpr (forall_mem_map.mpr fun column _ _ => forall_mem_singleton.mpr (short.carriedName column))

theorem columns_kept {block : Block σ} (short : block.IsShort) (bound : output.aliases ⊆ block.aliases) :
    Returns (output.columns block) KeepsNames := by
  have outputs := short.outputs
  simp only [forall_mem_append, forall_mem_map] at outputs
  rw [columns_eq, returns_bind]
  refine Returns.imp (returns_mapM fun entry mem => ?_) fun lists each => forall_mem_flatten_of_forall₂ each
  revert entry
  unfold entries
  split
  · next selected _ found =>
    refine forall_mem_map.mpr fun chosen mem => output.fieldColumns_kept (outputs.1.2 chosen ?_) _
    simpa [selectedFields, found] using mem
  · exact forall_mem_map.mpr fun aliasName mem => output.everyColumns_kept (short.aliases aliasName (bound mem))
  · refine forall_mem_map.mpr fun entry mem => ?_
    have named := outputs.1.1 entry.1 (List.fst_mem_of_mem_zipIdx mem)
    simp only [entryColumns, projectionColumns]
    split
    · exact keepsNames_single named _
    · split
      · exact output.fieldColumns_kept named _
      · simp only [returns_bind, returns_pure]
        exact returns_all (keepsNames_single named)

end Output

/-- The names that an engine has to keep apart: those of the row sets, those of the columns of the
result, and those of the columns of each row set. -/
def Level.nameLists (level : Level σ) : List (List String) :=
  level.rowSetNames :: level.select.outputNames [] :: outputsAfter [] level.rowSets

namespace Block

variable {block : Block Nested} (short : block.IsShort) (opts : Options) (graphId : String)

include short

theorem compile_rowSetNames_kept : Returns (block.compile { opts, graphId }).result fun compiled =>
      ∀ name ∈ compiled.1.rowSetNames, IsKept name := by
  have named (aliasName : String) (mem : aliasName ∈ block.aliases) :
      IsKept (rowSetName "" aliasName) ∧ IsKept (rowSetName "" (aliasName ++ "_counts")) := by
    have added : "cte_".utf8ByteSize = 4 ∧ "_counts".utf8ByteSize = 7 := by decide
    have shortAlias := short.aliases aliasName mem
    simp only [GraphSql.IsShort, IsKept, rowSetName, String.utf8ByteSize_append, String.empty_append] at *
    omega
  have chain (other : Block Nested) (included : other.aliases ⊆ block.aliases) (picks : Decisions) :
      Returns (other.chainLevel { opts, graphId } picks).result fun level =>
        ∀ name ∈ level.rowSetNames, IsKept name := by
    apply chainLevel_names.imp
    intro level names
    rw [names]
    refine forall_mem_cons.mpr ⟨(named _ (included mem_cons_self)).1, forall_mem_map.mpr ?_⟩
    intro hop mem
    have node := named hop.nodeAlias (included (node_mem_aliases mem))
    unfold Setting.hopName
    split
    · split
      · next same =>
        rw [← same] at node
        exact node.2
      · exact node.1
    · exact node.1
  refine compile_returns (fun level => ∀ name ∈ level.rowSetNames, IsKept name)
    (fun _ _ _ => chain _ (by simp) _) (fun _ _ _ => ?_) (fun _ _ _ => chain _ (List.Subset.refl _) _)
  unfold walkLevel
  simp only [result_bind, result_pure, returns_bind, returns_ok]
  refine returns_all fun _ => returns_all fun _ => returns_all fun _ => returns_all fun _ => forall_mem_singleton.mpr ?_
  exact (by decide : "recursive_cte".utf8ByteSize ≤ 63)

theorem compile_keepsNames (selects : block.SelectsPresent) :
    Returns (block.compile { opts, graphId }).result fun compiled =>
      ∀ names ∈ compiled.1.nameLists, ∀ name ∈ names, IsKept name := by
  have plain : block.withoutWalks.IsShort :=
    ⟨by simpa using short.aliases, forall_mem_append.mpr ⟨(forall_mem_append.mp short.outputs).1,
      by simp [withoutWalks, walkAliases]⟩, short.positions⟩
  cases compiled : (block.compile { opts, graphId }).result with
  | error error => trivial
  | ok made =>
    have columns : Output.KeepsNames made.1.select.columns := by
      refine (compile_columns (fun output bound => output.columns_kept short bound)
        fun walk found mem columns kept => forall_mem_append.mpr ⟨kept, ?_⟩).of_ok compiled
      have trail := forall_mem_flatMap.mp (forall_mem_append.mp short.outputs).2 walk.hop mem
      rw [walkAliases, (walk_spec found).2.1, forall_mem_append] at trail
      exact forall_mem_append.mpr
        ⟨forall_mem_map.mpr fun name member _ => forall_mem_singleton.mpr (trail.2 name member).kept,
          forall_mem_map.mpr fun name member _ => forall_mem_singleton.mpr (trail.1 name member).kept⟩
    refine forall_mem_cons.mpr ⟨(compile_rowSetNames_kept short opts graphId).of_ok compiled,
      forall_mem_cons.mpr ⟨?_, ?_⟩⟩
    · exact forall_mem_flatMap.mpr fun column mem => columns column mem _
    · exact (compile_outputs selects (fun _ => plain.outputsKept) fun _ => short.outputsKept).of_ok compiled

end Block

/-- What is known of the names of a level of the query. -/
def Query.KeepsApart (query : Query) (level : Level Statement) : Prop :=
  query.block.IsShort → query.block.SelectsPresent →
    ∀ names ∈ level.nameLists, names.Nodup → (names.map keptBytes).Nodup

/-- Different names stay different for PostgreSQL, if the names of the caller are short. -/
theorem names_survive_cutting (opts : Options) (graphId : String) (query : Query)
    (statement : Statement) (plan : Plan)
    (stated : (query.statement opts graphId).result = .ok (statement, plan)) :
    statement.EachLevel (fun _ => Query.KeepsApart) graphId query := by
  refine (Query.statement_eachLevel (fun query graphId level plan compiled => ?_) query
    graphId).of_ok stated
  intro short selects names mem distinct
  have nestedShort : (query.nested opts).IsShort := ⟨short.aliases, short.outputs, short.positions⟩
  have kept := (Block.compile_keepsNames nestedShort opts graphId selects).of_ok compiled names mem
  exact distinct.map_on fun _ first _ second same => keptBytes_injective (kept _ first) (kept _ second) same

theorem employers_survive_cutting :
    ∃ statement plan, (employers.statement { dialect := .postgres } "people").result =
        .ok (statement, plan) ∧ employers.block.IsShort ∧
      ∀ names ∈ statement.level.nameLists, names.Nodup → (names.map keptBytes).Nodup := by
  have short : employers.block.IsShort :=
    ⟨by decide +kernel, by decide +kernel, fun _ beyond => absurd beyond (Nat.not_lt_zero _)⟩
  refine ⟨_, _, rfl, short, ?_⟩
  cases names_survive_cutting { dialect := .postgres } "people" employers _ _ rfl with
  | mk own => exact own short fun mem => absurd rfl mem

/-- An alias as long as a name may be. -/
def longAlias : String := String.ofList (List.replicate 63 'a')

theorem cut_columns_collide :
    ∃ statement plan, ((Query.mk (Block.ofKind longAlias "person")).statement
        { dialect := .postgres } "people").result = .ok (statement, plan) ∧
      ∃ names ∈ statement.level.nameLists, names.Nodup ∧ ¬ (names.map keptBytes).Nodup := by
  refine ⟨_, _, rfl, _, mem_cons_of_mem _ mem_cons_self, ?_⟩
  decide +kernel

end GraphSql
