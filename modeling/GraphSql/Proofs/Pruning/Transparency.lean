import GraphSql.Proofs.Equivalence.Rescoping
import GraphSql.Proofs.Pruning.Present

namespace GraphSql

open List Output Traced

variable {σ : Type}

/-- The same decisions, but every alias carries all its columns. -/
def Decisions.unpruned (picks : Decisions) (block : Block σ) : Decisions := { picks with carried := block.everyColumn }

/-- The level of a query with hops of fixed length, where every alias carries all its columns. -/
def Block.compileUnpruned (block : Block Nested) (env : Setting) : Traced (Level Statement × Plan) := do
  let (picks, plan) ← block.analyzeChain env.opts
  return (← block.chainLevel env (picks.unpruned block), plan)

/-- The SELECT has some of the columns of the other one, in order, and all its clauses. -/
structure Select.Shortens (select whole : Select σ) : Prop where
  columns : select.columns.Sublist whole.columns
  clauses : select = { whole with columns := select.columns }

/-- The members of the row set have some of the columns of those of the other one. -/
structure RowSet.Shortens (rowSet whole : RowSet σ) : Prop where
  name : rowSet.name = whole.name
  materialized : rowSet.materialized = whole.materialized
  members : List.Forall₂ Select.Shortens rowSet.members whole.members

/-- No alias carries a column that it does not have. -/
def Decisions.Prunes (picks : Decisions) (block : Block σ) : Prop :=
  ∀ aliasName, (picks.carried aliasName).Sublist (block.everyColumn aliasName)

variable (aliasName : String)

namespace Block

variable {block : Block Nested} {env : Setting} {picks : Decisions}

section RowSets

theorem tableColumns_sublist (prunes : picks.Prunes block) (aliasName : String) :
    (block.tableColumns picks aliasName).Sublist (block.tableColumns (picks.unpruned block) aliasName) :=
  (prunes aliasName).map _

/-- The row set is a pruned one, provided that nothing else is carried. -/
def PrunedRowSet (block : Block Nested) (picks : Decisions) (rowSet whole : RowSet Statement) : Prop :=
  picks.Prunes block → rowSet.Shortens whole

theorem startRowSet_pruned : Follows (block.PrunedRowSet picks) (block.startRowSet env picks).result
      (block.startRowSet env (picks.unpruned block)).result := by
  unfold startRowSet
  simp only [result_bind, result_pure]
  refine follows_bind_same fun placed => (follows_ok _ _).mpr fun prunes => ?_
  refine ⟨rfl, rfl, .cons ⟨?_, rfl⟩ .nil⟩
  exact (tableColumns_sublist prunes _).append (.refl _)

theorem hopRowSet_pruned (hop : Traversal) (later : List Traversal) :
    Follows (block.PrunedRowSet picks) (block.hopRowSet env picks hop later).result
      (block.hopRowSet env (picks.unpruned block) hop later).result := by
  unfold hopRowSet
  simp only [result_bind, result_pure]
  refine follows_bind_same fun conditions => (follows_ok _ _).mpr fun prunes => ?_
  refine ⟨rfl, rfl, .cons ⟨?_, rfl⟩ .nil⟩
  have edge := tableColumns_sublist prunes hop.edgeAlias
  have node := tableColumns_sublist prunes hop.nodeAlias
  exact (((List.Sublist.refl _).append edge).append node).append (.refl _)

theorem countRowSet_pruned (hop : Traversal) (counts : Counts) :
    Follows (block.PrunedRowSet picks) (block.countRowSet env picks hop counts).result
      (block.countRowSet env (picks.unpruned block) hop counts).result := by
  unfold countRowSet
  simp only [result_bind, result_pure]
  refine follows_bind_same fun conditions => (follows_ok _ _).mpr fun _ => ?_
  exact ⟨rfl, rfl, .cons ⟨.refl _, rfl⟩ .nil⟩

theorem hopRowSets_pruned (hops : List Traversal) : Follows (List.Forall₂ (block.PrunedRowSet picks))
      (block.hopRowSets env picks hops).result
      (block.hopRowSets env (picks.unpruned block) hops).result := by
  have counts : (picks.unpruned block).counts = picks.counts := rfl
  induction hops with
  | nil => exact (follows_ok _ _).mpr .nil
  | cons hop later ih =>
    have here : Follows (block.PrunedRowSet picks) (block.rowSetOf env picks hop later).result
        (block.rowSetOf env (picks.unpruned block) hop later).result := by
      unfold rowSetOf
      rw [counts]
      split
      · split
        · exact countRowSet_pruned hop _
        · exact hopRowSet_pruned hop later
      · exact hopRowSet_pruned hop later
    rw [result_hopRowSets_cons, result_hopRowSets_cons]
    exact here.bind fun _ _ first => ih.bind fun _ _ rest => (follows_ok _ _).mpr (.cons first rest)

end RowSets

section Output

theorem find?_unpruned : (block.relations env (picks.unpruned block)).find? aliasName =
      ((block.relations env picks).find? aliasName).map fun carried =>
        { carried with columns := block.everyColumn carried.aliasName } := by
  simp only [Relations.find?, relations, List.find?_map, Option.map_map]
  rfl

theorem lookup_unpruned : Follows (fun carried whole =>
        carried.aliasName = aliasName ∧ carried.element = block.elementOf aliasName ∧
          carried.columns = picks.carried aliasName ∧
          whole = { carried with columns := block.everyColumn aliasName })
      ((block.relations env picks).lookup aliasName)
      ((block.relations env (picks.unpruned block)).lookup aliasName) := by
  have unavailable : (block.relations env (picks.unpruned block)).unavailable =
      (block.relations env picks).unavailable := rfl
  apply ((block.relations env picks).lookup_ensures aliasName).attach.returns.imp
  rintro carried ⟨found, mem, rfl⟩
  obtain ⟨-, -, same⟩ := mem_relations mem
  refine ⟨_, ?_, rfl, by rw [same], by rw [same], rfl⟩
  unfold Relations.lookup at found ⊢
  rw [unavailable, find?_unpruned]
  split at found
  · cases found
  · split at found
    · next known =>
      rw [known]
      cases found
      rfl
    · cases found

/-- A column that is read is found where every column is carried, too. -/
theorem column_unpruned (column : Column) : Follows Eq ((block.relations env picks).column aliasName column)
      ((block.relations env (picks.unpruned block)).column aliasName column) := by
  unfold Relations.column
  apply (lookup_unpruned aliasName).bind
  rintro carried whole ⟨rfl, element, columns, rfl⟩
  dsimp only
  unfold checkColumn
  split
  · next present =>
    rw [element] at present
    have every : (block.everyColumn carried.aliasName).contains column = true :=
      contains_iff_mem.mpr (mem_everyColumn present)
    simp only [every, if_true]
    split
    · exact (follows_pure _ _).mpr rfl
    · trivial
  · trivial

/-- The alias carries all its columns. -/
def CarriesAll (block : Block Nested) (picks : Decisions) (aliasName : String) : Prop :=
  picks.carried aliasName = block.everyColumn aliasName

/-- The field is not read as a whole, or its alias carries all columns. -/
def KeepsWhole (block : Block Nested) (picks : Decisions) (field : Field) : Prop :=
  field.target = .ok .whole → block.CarriesAll picks field.aliasName

/-- One SELECT reads aliases as the other one does, for which they carry all their columns. -/
structure PrunedOutput (block : Block Nested) (picks : Decisions) (output whole : Output) : Prop where
  rescoped : ∀ field : Field, field.Rescoped id (fun _ => True) output.scope whole.scope
  all : ∀ aliasName, Follows (fun entries wholes => ∃ read : Column → Column × Term,
      entries = (picks.carried aliasName).map read ∧ wholes = (block.everyColumn aliasName).map read)
    (output.relations.allColumns aliasName) (whole.relations.allColumns aliasName)
  distance : whole.distance = output.distance
  nearest : whole.nearest = output.nearest
  computed : whole.computed = output.computed
  aliases : output.aliases = block.aliases ∧ whole.aliases = block.aliases

theorem chainOutput_pruned : block.PrunedOutput picks (block.chainOutput env picks)
      (block.chainOutput env (picks.unpruned block)) := by
  refine ⟨fun field column _ => ?_, fun aliasName => ?_, funext fun aliasName => ?_, rfl, rfl, rfl, rfl⟩
  · apply (column_unpruned field.aliasName column).imp
    rintro term ⟨_, found, rfl⟩
    exact ⟨term, found, term.rename_id.symm, fun _ _ => trivial⟩
  · unfold Relations.allColumns
    apply (lookup_unpruned aliasName).bind
    rintro carried whole ⟨-, -, columns, rfl⟩
    refine (follows_pure _ _).mpr ⟨fun column => (column, Relations.term carried column), ?_, rfl⟩
    rw [columns]
  · have known : (block.chainOutput env (picks.unpruned block)).relations.find? aliasName =
        ((block.chainOutput env picks).relations.find? aliasName).map _ :=
      find?_unpruned aliasName
    unfold Output.distance
    rw [known]
    cases (block.chainOutput env picks).relations.find? aliasName <;> rfl

namespace PrunedOutput

variable {output whole : Output} (pruned : block.PrunedOutput picks output whole)

include pruned

theorem distanceOf (aliasName : String) : whole.distanceOf aliasName = output.distanceOf aliasName := by
  simp [Output.distanceOf, pruned.nearest, pruned.distance]

theorem readTyped (field : Field) : Follows Eq (field.readTyped output.scope) (field.readTyped whole.scope) := by
  apply (pruned.rescoped field).readTyped.imp
  rintro term ⟨source, found, same⟩
  exact ⟨source, found, same.1.trans source.rename_id⟩

theorem fieldColumns (name : String) (field : Field) :
    Follows (fun columns wholes => block.KeepsWhole picks field → columns = wholes)
      (output.fieldColumns name field) (whole.fieldColumns name field) := by
  have single : Follows (fun columns wholes => block.KeepsWhole picks field → columns = wholes)
      (do return [OutputColumn.quoted (← field.readTyped output.scope) name])
      (do return [OutputColumn.quoted (← field.readTyped whole.scope) name]) := by
    apply (pruned.readTyped field).bind
    rintro term _ rfl
    exact (follows_pure _ _).mpr fun _ => rfl
  unfold Output.fieldColumns
  refine Field.Rescoped.resolve fun target found => ?_
  cases target with
  | whole =>
    apply (pruned.all field.aliasName).bind
    rintro _ _ ⟨read, rfl, rfl⟩
    simp only [pruned.distanceOf]
    refine follows_bind_same fun distances => (follows_pure _ _).mpr fun keeps => ?_
    rw [keeps found]
  | column _ | property _ => exact single

theorem entryColumns (asked : ¬ (block.projection = [] ∧ block.selected = none)) {entry : Entry}
    (isOf : entry.IsOf block) :
    Follows (fun columns wholes =>
        (∀ field ∈ block.finalFields block.placements, block.KeepsWhole picks field) → columns = wholes)
      (output.entryColumns entry) (whole.entryColumns entry) := by
  cases entry with
  | projection projection index =>
    simp only [Output.entryColumns, projectionColumns, pruned.computed]
    cases output.computed index with
    | some term => exact (follows_ok _ _).mpr fun _ => rfl
    | none =>
      cases source : projection.source with
      | field target =>
        have read : projectedField? projection = some target := by rw [projectedField?, source]
        have final : target ∈ block.finalFields block.placements := by
          simp only [finalFields, mem_append]
          exact .inl (.inl (.inl (.inl (.inl (mem_filterMap.mpr ⟨projection, fst_mem_of_mem_zipIdx isOf, read⟩)))))
        exact (pruned.fieldColumns projection.name target).mono fun _ _ same keeps => same (keeps target final)
      | aggregate expression =>
        have lowered : Follows (Term.Rescoped id fun _ => True)
            (expression.lower output.aggregateScope) (expression.lower whole.aggregateScope) :=
          Aggregate.lower_rescoped (pruned.rescoped expression.field) rfl
        apply lowered.bind
        intro term source same
        refine (follows_pure _ _).mpr fun _ => ?_
        rw [same.1, source.rename_id]
  | selected chosen =>
    have final : chosen.field ∈ block.finalFields block.placements := by
      simp only [finalFields, mem_append]
      exact .inl (.inr (mem_map_of_mem isOf))
    exact (pruned.fieldColumns chosen.name chosen.field).mono fun _ _ same keeps => same (keeps chosen.field final)
  | every aliasName => exact absurd isOf asked

/-- Where every column is returned, pruning shows unless all columns are carried. -/
theorem everyColumn (aliases : List String) : Follows (fun columns wholes => picks.Prunes block →
        columns.Sublist wholes ∧ (columns = wholes ↔ ∀ aliasName ∈ aliases, block.CarriesAll picks aliasName))
      (output.everyColumn aliases) (whole.everyColumn aliases) := by
  induction aliases with
  | nil => exact (follows_ok _ _).mpr fun _ => by simp
  | cons aliasName rest ih =>
    unfold Output.everyColumn
    apply (pruned.all aliasName).bind
    rintro _ _ ⟨read, rfl, rfl⟩
    simp only [pruned.distanceOf]
    refine follows_bind_same fun distances => ?_
    apply ih.bind
    intro others wholes fewerRest
    refine (follows_pure _ _).mpr fun prunes => ?_
    obtain ⟨fewer, same⟩ := fewerRest prunes
    have first := prunes aliasName
    refine ⟨(((first.map read).map _).append (.refl _)).append fewer, ?_⟩
    rw [forall_mem_cons, ← same]
    constructor
    · intro equal
      -- Both parts are at most as long as those of the whole, so that none is shorter.
      have lengths := congrArg length equal
      simp only [length_append, length_map] at lengths
      have carried := first.length_le
      have mem := fewer.length_le
      exact ⟨first.eq_of_length (by omega), fewer.eq_of_length (by omega)⟩
    · rintro ⟨all, rfl⟩
      rw [all]

theorem columns : Follows (fun columns wholes => picks.Prunes block →
        (∀ field ∈ block.finalFields block.placements, block.KeepsWhole picks field) →
        (columns = wholes ↔ (block.projection = [] → block.selected = none →
          ∀ aliasName ∈ block.aliases, block.CarriesAll picks aliasName)))
      (output.columns block) (whole.columns block) := by
  by_cases asked : block.projection = [] ∧ block.selected = none
  · simp only [Output.columns, asked.1, asked.2, pruned.aliases]
    apply (pruned.everyColumn block.aliases).imp
    rintro columns ⟨wholes, found, fewer⟩
    refine ⟨wholes, found, fun prunes _ => ?_⟩
    simpa using (fewer prunes).2
  · have entries : whole.entries block = output.entries block := by
      simp only [entries, pruned.aliases]
    rw [columns_eq, columns_eq, entries]
    apply (sequential_follows.mapM fun entry mem =>
      pruned.entryColumns asked (output.entries_isOf block entry mem)).bind
    intro lists wholes same
    refine (follows_pure _ _).mpr fun _ keeps => ?_
    obtain rfl : lists = wholes := forall₂_eq_eq_eq ▸ same.imp fun _ _ equal => equal keeps
    exact iff_of_true rfl fun projection selected => absurd ⟨projection, selected⟩ asked

theorem groupKeys (field : Field) : Follows (fun terms wholes => block.KeepsWhole picks field → terms = wholes)
      (output.groupKeys field) (whole.groupKeys field) := by
  have single : Follows (fun terms wholes => block.KeepsWhole picks field → terms = wholes)
      (do return [← field.readTyped output.scope]) (do return [← field.readTyped whole.scope]) := by
    apply (pruned.readTyped field).bind
    rintro term _ rfl
    exact (follows_pure _ _).mpr fun _ => rfl
  unfold Output.groupKeys
  refine Field.Rescoped.resolve fun target found => ?_
  cases target with
  | whole =>
    apply (pruned.all field.aliasName).bind
    rintro _ _ ⟨read, rfl, rfl⟩
    refine (follows_pure _ _).mpr fun keeps => ?_
    rw [keeps found]
  | column _ | property _ => exact single

theorem groupBy (fields : List Field) : Follows (fun terms wholes =>
        (∀ field ∈ fields, block.KeepsWhole picks field) → terms = wholes)
      (output.groupBy fields) (whole.groupBy fields) := by
  rw [groupBy_eq, groupBy_eq]
  apply (sequential_follows.mapM fun field mem => (pruned.groupKeys field).mono fun _ _ same
    (keeps : ∀ field ∈ fields, block.KeepsWhole picks field) => same (keeps field mem)).bind
  intro lists wholes same
  refine (follows_pure _ _).mpr fun keeps => congrArg flatten ?_
  exact forall₂_eq_eq_eq ▸ same.imp fun _ _ equal => equal keeps

theorem filters (dialect : Dialect) (predicates : List (Predicate Nested)) :
    Follows Eq (Predicate.lowerAll dialect output.scope predicates).result
      (Predicate.lowerAll dialect whole.scope predicates).result := by
  have aggregates : output.scope.aggregates = whole.scope.aggregates := rfl
  apply (Predicate.lowerAll_rescoped dialect aggregates predicates fun field _ => pruned.rescoped field).imp
  rintro conditions ⟨wholes, found, same, -⟩
  rw [same, Condition.renameAll_id]
  exact ⟨wholes, found, rfl⟩

theorem having (dialect : Dialect) (predicate : Option (Predicate Nested)) :
    Follows Eq (output.having dialect predicate).result (whole.having dialect predicate).result := by
  have lowered : Follows _ (output.having dialect predicate).result (whole.having dialect predicate).result :=
    having_rescoped dialect fun _ _ field _ => pruned.rescoped field
  apply lowered.imp
  rintro condition ⟨whole, found, same, -⟩
  refine ⟨whole, found, same.trans ?_⟩
  cases whole with
  | none => rfl
  | some lowered => exact congrArg some (Condition.rename_eq_self _ fun reference _ => reference.rename_id)

theorem orderBy (orders : List Order) : Follows Eq (output.orderBy orders) (whole.orderBy orders) := by
  have rescoped : Follows _ (output.sortKeys orders) (whole.sortKeys orders) :=
    sortKeys_rescoped fun order _ => pruned.rescoped order.field
  have keys : Follows Eq (output.sortKeys orders) (whole.sortKeys orders) := by
    apply rescoped.imp
    rintro keys ⟨wholes, found, alike⟩
    refine ⟨wholes, found, forall₂_eq_eq_eq ▸ alike.imp fun key whole same => ?_⟩
    obtain ⟨term, direction, nulls⟩ := key
    obtain ⟨⟨rfl, -⟩, rfl, rfl⟩ := same
    rw [Term.rename_id]
  unfold Output.orderBy
  rw [pruned.nearest]
  split
  · simp only [pruned.distance]
    refine follows_bind_same fun distances => ?_
    apply keys.bind
    rintro _ _ rfl
    exact (follows_pure _ _).mpr rfl
  · apply keys.bind
    rintro _ _ rfl
    exact (follows_pure _ _).mpr rfl

theorem bounds (block : Block Nested) : whole.bounds block = output.bounds block := by
  simp [Output.bounds, pruned.nearest]

end PrunedOutput

end Output

/-- The final SELECT differs from the unpruned one in what stands for whole aliases, if at all. -/
structure PrunedSelect (block : Block Nested) (picks : Decisions) (select whole : Select Statement) : Prop where
  clauses : select = { whole with columns := select.columns, groupBy := select.groupBy }
  groupBy : (∀ field ∈ block.finalFields block.placements, block.KeepsWhole picks field) →
    select.groupBy = whole.groupBy
  columns : picks.Prunes block → (∀ field ∈ block.finalFields block.placements, block.KeepsWhole picks field) →
      (select.columns = whole.columns ↔ (block.projection = [] → block.selected = none →
        ∀ aliasName ∈ block.aliases, block.CarriesAll picks aliasName))

theorem chainSelect_pruned : Follows (block.PrunedSelect picks) (block.chainSelect env picks).result
      (block.chainSelect env (picks.unpruned block)).result := by
  have counts : (picks.unpruned block).counts = picks.counts := rfl
  have pruned : block.PrunedOutput picks (block.chainOutput env picks)
      (block.chainOutput env (picks.unpruned block)) := chainOutput_pruned
  rw [result_chainSelect, result_chainSelect, counts]
  generalize block.chainOutput env picks = output at pruned ⊢
  generalize block.chainOutput env (picks.unpruned block) = whole at pruned ⊢
  have groupBy : Follows (fun terms wholes =>
      (∀ field ∈ block.finalFields block.placements, block.KeepsWhole picks field) → terms = wholes)
      (if picks.counts.isNone then output.groupBy block.groupBy else pure [])
      (if picks.counts.isNone then whole.groupBy block.groupBy else pure []) := by
    split
    · apply (pruned.groupBy block.groupBy).imp
      rintro terms ⟨wholes, found, same⟩
      refine ⟨wholes, found, fun keeps => same fun field mem => keeps field ?_⟩
      simp only [finalFields, mem_append]
      exact .inl (.inl (.inl (.inl (.inr mem))))
    · exact (follows_pure _ _).mpr fun _ => rfl
  have having : Follows Eq (if picks.counts.isNone then
        (output.having env.opts.dialect block.having).result else pure none)
      (if picks.counts.isNone then
        (whole.having env.opts.dialect block.having).result else pure none) := by
    split
    · exact pruned.having _ _
    · exact (follows_pure _ _).mpr rfl
  apply pruned.columns.bind
  intro columns wholes sameColumns
  apply (pruned.filters _ _).bind
  rintro conditions _ rfl
  apply groupBy.bind
  intro terms wholeTerms sameTerms
  apply having.bind
  rintro condition _ rfl
  apply (pruned.orderBy _).bind
  rintro keys _ rfl
  refine (follows_pure _ _).mpr ⟨?_, sameTerms, sameColumns⟩
  rw [pruned.bounds]
  rfl

theorem chainLevel_pruned : Follows (fun level whole =>
        List.Forall₂ (block.PrunedRowSet picks) level.rowSets whole.rowSets ∧
          block.PrunedSelect picks level.select whole.select)
      (block.chainLevel env picks).result
      (block.chainLevel env (picks.unpruned block)).result := by
  unfold chainLevel
  simp only [result_bind, result_pure]
  apply startRowSet_pruned.bind
  intro start wholeStart startPruned
  apply (hopRowSets_pruned block.traversals).bind
  intro hops wholeHops hopsPruned
  apply chainSelect_pruned.bind
  intro select wholeSelect selectPruned
  exact (follows_ok _ _).mpr ⟨.cons startPruned hopsPruned, selectPruned⟩

section

variable (opts : Options) (vector : Option VectorSearch)

/-- Where the columns that are read exist, pruning drops columns and adds none. -/
theorem chainDecisions_prunes (has : ∀ field ∈ block.lateFields, block.Has field) :
    (block.chainDecisions opts vector).Prunes block := by
  intro aliasName
  have needed : (block.neededColumns block.placements aliasName).Sublist (block.everyColumn aliasName) := by
    unfold neededColumns everyColumn Column.ofElement
    refine monotone_filter_right _ fun column isNeeded => ?_
    exact existsOn_of_mem_neededColumns (fun field final => has field (late_of_mem_finalFields final))
      (mem_filter.mpr ⟨column.mem_all, isNeeded⟩)
  unfold chainDecisions
  dsimp only
  split
  · exact needed
  · exact .refl _

/-- An alias that is read as a whole carries all its columns. -/
theorem chainDecisions_keepsWhole (has : ∀ field ∈ block.lateFields, block.Has field) :
    ∀ field ∈ block.finalFields block.placements, block.KeepsWhole (block.chainDecisions opts vector) field := by
  intro field final whole
  unfold CarriesAll chainDecisions
  dsimp only
  split
  · exact neededColumns_eq_everyColumn final whole fun other mem => has other (late_of_mem_finalFields mem)
  · rfl

theorem chainDecisions_carriesAll (aliasName : String) :
    block.CarriesAll (block.chainDecisions opts vector) aliasName ↔ (block.isPruned = true →
        block.neededColumns block.placements aliasName = block.everyColumn aliasName) := by
  unfold CarriesAll chainDecisions
  dsimp only
  split
  · next pruned => simp [pruned]
  · next unpruned => simp [unpruned]

end

theorem result_compileChain (block : Block Nested) (env : Setting) : (block.compileChain env).result = do
      let analyzed ← (block.analyzeChain env.opts).result
      let level ← (block.chainLevel env analyzed.1).result
      return (level, analyzed.2) := by
  simp only [compileChain, result_bind, result_pure]
  rfl

theorem result_compileUnpruned (block : Block Nested) (env : Setting) : (block.compileUnpruned env).result = do
      let analyzed ← (block.analyzeChain env.opts).result
      let level ← (block.chainLevel env (analyzed.1.unpruned block)).result
      return (level, analyzed.2) := by
  simp only [compileUnpruned, result_bind, result_pure]
  rfl

end Block

/-- Pruning changes the row sets of a chain only, whose members lose columns and nothing else. The
final SELECT has the clauses that it has without pruning, and it is the same as a whole unless the
query is grouped, leaves its output columns open and does not read all of them. -/
theorem pruning_transparent_iff (block : Block Nested) (env : Setting)
    {level : Level Statement} {plan : Plan}
    (compiled : (block.compileChain env).result = .ok (level, plan)) :
    ∃ whole, (block.compileUnpruned env).result = .ok (whole, plan) ∧
      level.select =
        { whole.select with columns := level.select.columns, groupBy := level.select.groupBy } ∧
      (block.SelectsPresent →
        List.Forall₂ RowSet.Shortens level.rowSets whole.rowSets ∧
          level.select.groupBy = whole.select.groupBy ∧
          (level.select = whole.select ↔
            (block.projection = [] → block.selected = none → block.isPruned = true →
              ∀ aliasName ∈ block.aliases,
                block.neededColumns block.placements aliasName =
                  block.everyColumn aliasName))) := by
  rw [Block.result_compileChain] at compiled
  obtain ⟨⟨picks, _⟩, analyzed, rest⟩ := exists_of_bind_eq_ok compiled
  obtain ⟨made, leveled, finished⟩ := exists_of_bind_eq_ok rest
  obtain ⟨rfl, rfl⟩ := Prod.mk.inj (Except.ok.inj finished)
  obtain ⟨-, -, vector, rfl, -⟩ := (block.analyzeChain_ensures env.opts).of_ok analyzed
  obtain ⟨whole, wholeLeveled, rowSets, select⟩ := Block.chainLevel_pruned.exists_ok leveled
  refine ⟨whole, ?_, select.clauses, fun selects => ?_⟩
  · rw [Block.result_compileUnpruned, analyzed]
    change (do let level ← (block.chainLevel env _).result; return _) = _
    rw [wholeLeveled]
    rfl
  · have has := (Block.has_of_chainLevel analyzed selects).of_ok leveled
    have prunes := Block.chainDecisions_prunes env.opts vector has
    have keeps := Block.chainDecisions_keepsWhole env.opts vector has
    have groupBy := select.groupBy keeps
    have columns := select.columns prunes keeps
    refine ⟨rowSets.imp fun _ _ pruned => pruned prunes, groupBy, ?_⟩
    have equal : made.select = whole.select ↔ made.select.columns = whole.select.columns := by
      refine ⟨congrArg Select.columns, fun same => ?_⟩
      rw [select.clauses, same, groupBy]
    rw [equal, columns]
    simp only [Block.chainDecisions_carriesAll]
    exact ⟨fun all projection selected pruned aliasName mem =>
        all projection selected aliasName mem pruned,
      fun all projection selected aliasName mem pruned => all projection selected pruned aliasName mem⟩

/-- Each person as a whole, with the number of acquaintances. -/
def familiarity : Query :=
  .mk { (Block.ofKind "p" "person").traverse (.outwardFrom "p" "e" "knows" "f" "person") with
    projection := [⟨"person", .field (.ofAlias "p")⟩, ⟨"known", .aggregate ⟨.count, .ofAlias "f"⟩⟩]
    groupBy := [.ofAlias "p"] }

namespace familiarity

def env : Setting where
  opts := {}
  graphId := "people"

theorem select_unpruned :
    ∃ level whole plan,
      ((familiarity.nested {}).compileChain env).result = .ok (level, plan) ∧
        ((familiarity.nested {}).compileUnpruned env).result = .ok (whole, plan) ∧
        List.Forall₂ RowSet.Shortens level.rowSets whole.rowSets ∧ level.select = whole.select := by
  obtain ⟨level, plan, compiled⟩ : ∃ level plan,
      ((familiarity.nested {}).compileChain env).result = .ok (level, plan) := ⟨_, _, rfl⟩
  obtain ⟨whole, unpruned, -, pruned⟩ := pruning_transparent_iff (familiarity.nested {}) env compiled
  have selects : (familiarity.nested {}).SelectsPresent := fun _ chosen mem => by cases mem
  obtain ⟨rowSets, -, select⟩ := pruned selects
  exact ⟨level, whole, plan, compiled, unpruned, rowSets, select.mpr fun none => by cases none⟩

end familiarity

/-- The groups of persons with the same id, where the output columns are left open. -/
def identities : Query := .mk { Block.ofKind "p" "person" with groupBy := [.ofColumn "p" "id"] }

theorem identities_show_pruning :
    ∃ level whole plan,
      ((identities.nested {}).compileChain familiarity.env).result = .ok (level, plan) ∧
        ((identities.nested {}).compileUnpruned familiarity.env).result = .ok (whole, plan) ∧
        level.select.columns.length = 2 ∧ whole.select.columns.length = 9 :=
  ⟨_, _, _, rfl, rfl, rfl, rfl⟩

end GraphSql
