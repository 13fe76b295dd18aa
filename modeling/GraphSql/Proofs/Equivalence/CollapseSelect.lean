import GraphSql.Proofs.Equivalence.LineJoins
import GraphSql.Proofs.Equivalence.Rescoping
import GraphSql.Proofs.Pruning.Present

namespace GraphSql

open List Output Relations

/-- The same decisions, but for the row sets, which are joined again. -/
def Decisions.rejoined (picks : Decisions) : Decisions := { picks with collapse := false }

theorem Field.read_isPlain (field : Field) (relations : Relations) (aggregates : Bool) (extraction : Extraction) :
    Returns (field.read (relations.scope aggregates) extraction) fun term => term.isAggregate = false := by
  have column (wanted : Column) : Returns (relations.column field.aliasName wanted) fun term =>
      term.isAggregate = false := by
    unfold Relations.column
    simp only [returns_bind]
    refine returns_all fun carried => returns_all fun _ => ?_
    split
    · rfl
    · trivial
  unfold Field.read
  rw [returns_bind]
  refine returns_all fun target => ?_
  cases target with
  | whole => trivial
  | column wanted => exact column wanted
  | property pointer =>
    change Returns (relations.column field.aliasName .props >>= _) _
    rw [returns_bind]
    exact (column .props).imp fun document plain => plain

namespace Output

variable {output : Output}

/-- A field is no aggregate. -/
theorem selectedColumns_isPlain (nearest : output.nearest = none) (selected : List SelectedField) :
    Returns (output.selectedColumns selected) fun columns => ∀ column ∈ columns, column.isAggregate = false := by
  have gives : output.GivesColumns fun column => column.isAggregate = false := by
    refine ⟨fun _ field => field.read_isPlain output.relations false _, fun aliasName => ?_, ?_⟩
    · simp only [allColumns, returns_bind, returns_pure]
      refine returns_all fun carried => ?_
      exact forall_mem_map.mpr fun _ _ => ⟨rfl, fun _ => rfl⟩
    · simp [distanceOf, nearest]
  rw [selectedColumns_eq, returns_bind]
  exact (returns_mapM fun chosen _ => fieldColumns_each gives chosen.name chosen.field).imp fun _ =>
    forall_mem_flatten_of_forall₂

end Output

namespace Block

section Relations

variable {σ : Type} {block : Block σ} {env : Setting} {picks : Decisions}
variable {aliasName : String}

/-- What the final SELECT knows of an alias. -/
def carriedFor (block : Block σ) (env : Setting) (picks : Decisions) (aliasName : String) : Carried where
  aliasName
  relation := env.rowSetName (block.readFrom picks aliasName)
  element := block.elementOf aliasName
  columns := picks.carried aliasName

variable (uncounted : picks.counts = none)

include uncounted

theorem relations_eq : block.relations env picks = { carried := block.aliases.map (block.carriedFor env picks) } := by
  simp [relations, Decisions.isCounted, uncounted, carriedFor]

/-- Without counts, the final SELECT can read the aliases of the query and no others. -/
theorem lookup_relations : Returns ((block.relations env picks).lookup aliasName) fun carried =>
      aliasName ∈ block.aliases ∧ carried = block.carriedFor env picks aliasName := by
  apply ((block.relations env picks).lookup_ensures aliasName).returns.imp
  rintro carried ⟨mem, rfl⟩
  rw [relations_eq uncounted] at mem
  obtain ⟨found, inAliases, rfl⟩ := mem_map.mp mem
  exact ⟨inAliases, rfl⟩

theorem lookup_of_mem_aliases (mem : aliasName ∈ block.aliases) :
    (block.relations env picks).lookup aliasName = .ok (block.carriedFor env picks aliasName) := by
  have isSome : ((block.aliases.map (block.carriedFor env picks)).find? (·.aliasName == aliasName)).isSome = true :=
    find?_isSome.mpr ⟨_, mem_map_of_mem mem, beq_self_eq_true aliasName⟩
  obtain ⟨carried, found⟩ := Option.isSome_iff_exists.mp isSome
  have looked : (block.relations env picks).lookup aliasName = .ok carried := by
    simp [relations_eq uncounted, Relations.lookup, Relations.find?, found]
  have spec := (lookup_relations uncounted).of_ok looked
  rw [looked, spec.2]

theorem column_relations (column : Column) : Returns ((block.relations env picks).column aliasName column) fun term =>
      aliasName ∈ block.aliases ∧ column.existsOn (block.elementOf aliasName) = true ∧
        column ∈ picks.carried aliasName ∧
        term = Relations.term (block.carriedFor env picks aliasName) column := by
  unfold Relations.column
  rw [returns_bind]
  apply (lookup_relations uncounted).imp
  rintro carried ⟨mem, rfl⟩
  unfold checkColumn
  split
  · next present =>
    rw [returns_bind, returns_ok]
    split
    · next kept => exact ⟨mem, present, contains_iff_mem.mp kept, rfl⟩
    · trivial
  · trivial

end Relations

/-- Every row that is joined again is found in the last row of a collapsed line. -/
def lastRow {σ : Type} (block : Block σ) (env : Setting) (_ : Row) : Row := .relation (env.rowSetName block.lastAlias)

/-- The reference is to a column that is carried for an alias, in the row set of its owner. -/
def OwnedColumn {σ : Type} (block : Block σ) (env : Setting) (picks : Decisions) : Reference → Prop := fun reference =>
  ∃ aliasName ∈ block.aliases, ∃ column ∈ picks.carried aliasName, reference =
      .column (.relation (env.rowSetName (block.readFrom picks.rejoined aliasName))) (carriedName aliasName column)

theorem Line.rejoined {block : Block Nested} {picks : Decisions} (line : block.Line picks) :
    block.Line picks.rejoined where
  bound := line.bound
  names := line.names
  fit := ⟨line.fit.placements, line.fit.now, line.fit.id, line.fit.kind, line.fit.late, line.fit.vector⟩
  linear := line.linear
  required := line.required
  vector := line.vector
  counts := line.counts
  pushdown := line.pushdown
  present := line.present

/-- A query whose row sets are collapsed, without bounds. -/
structure Collapsed (block : Block Nested) (picks : Decisions) : Prop where
  bound : block.Bound
  names : block.Apart .ignored
  fit : picks.Fit block
  unsearched : block.Unsearched
  linear : isLinearFrom block.start.aliasName block.traversals = true
  required : ∀ hop ∈ block.traversals, hop.optional = false
  vector : picks.vector = none
  counts : picks.counts = none
  pushdown : picks.pushdown = none
  collapse : picks.collapse = true
  carried : picks.carried = block.neededColumns block.placements
  projection : block.projection = []
  selected : block.selected.isSome = true
  groupBy : block.groupBy = []
  having : block.having = none
  limit : block.limit = none
  offset : block.offset = none

namespace Collapsed

variable {block : Block Nested} {env : Setting} {picks : Decisions} {field : Field}
variable (collapsed : block.Collapsed picks)

include collapsed

theorem columns_eq (output : Output) : output.columns block = output.selectedColumns block.selectedFields := by
  obtain ⟨fields, chosen⟩ := Option.isSome_iff_exists.mp collapsed.selected
  simp [columns, selectedFields, collapsed.projection, chosen]

theorem nearest_eq_none : (block.chainOutput env picks).nearest = none := by
  simp [chainOutput, collapsed.vector]

theorem nearest_rejoined : (block.chainOutput env picks.rejoined).nearest = none := by
  simp [chainOutput, Decisions.rejoined, collapsed.vector]

theorem existsOn_of_select : Returns (block.chainSelect env picks).result fun _ =>
      ∀ field ∈ block.lateFields, block.Has field :=
  has_of_chainSelect collapsed.fit.placements (collapsed.unsearched.readIn _)
    collapsed.unsearched.having (countsReadIds_of_uncounted collapsed.counts)
    fun mem => absurd collapsed.projection mem

/-- Where the columns that are read exist, all columns that are carried do. -/
theorem line (present : ∀ field ∈ block.lateFields, block.Has field) : block.Line picks where
  bound := collapsed.bound
  names := collapsed.names
  fit := collapsed.fit
  linear := collapsed.linear
  required := collapsed.required
  vector := collapsed.vector
  counts := collapsed.counts
  pushdown := collapsed.pushdown
  present := by
    intro aliasName column carried
    rw [collapsed.carried] at carried
    exact existsOn_of_mem_neededColumns (fun field final => present field (late_of_mem_finalFields final)) carried

/-- A collapsed query returns a row for each row in reach. -/
theorem isGrouped_of_select : Returns (block.chainSelect env picks).result fun select => select.isGrouped = false := by
  rw [result_chainSelect]
  simp only [returns_bind, collapsed.counts, Option.isNone_none, if_true, collapsed.groupBy,
    collapsed.having, Output.groupBy, Output.having, Traced.result_pure, returns_ok, returns_pure]
  rw [collapsed.columns_eq]
  apply (selectedColumns_isPlain collapsed.nearest_eq_none block.selectedFields).imp
  intro columns plain
  refine returns_all fun conditions => returns_all fun keys => ?_
  simpa [Select.isGrouped] using plain

theorem uncounted_rejoined : picks.rejoined.counts = none := collapsed.counts

/-- Both statements read the same columns of an alias, the one from its last row set. -/
theorem term_rescoped {aliasName : String} (mem : aliasName ∈ block.aliases) {column : Column}
    (kept : column ∈ picks.carried aliasName) :
    (term (block.carriedFor env picks aliasName) column).Rescoped (block.lastRow env) (block.OwnedColumn env picks)
      (term (block.carriedFor env picks.rejoined aliasName) column) := by
  refine ⟨?_, ?_⟩
  · simp [term, carriedFor, readFrom, collapsed.collapse, Term.rename, lastRow]
  · intro reference read
    obtain rfl := mem_singleton.mp read
    exact ⟨aliasName, mem, column, kept, rfl⟩

theorem rescoped (field : Field) : field.Rescoped (block.lastRow env) (block.OwnedColumn env picks)
      (block.chainOutput env picks).scope
      (block.chainOutput env picks.rejoined).scope := by
  intro column _
  apply (column_relations collapsed.counts column).imp
  rintro term ⟨mem, present, kept, rfl⟩
  have found : (block.relations env picks.rejoined).lookup field.aliasName = .ok _ :=
    lookup_of_mem_aliases collapsed.uncounted_rejoined mem
  exact ⟨_, column_of_lookup found present kept, collapsed.term_rescoped mem kept⟩

theorem wholeRescoped (field : Field) : Output.WholeRescoped (block.lastRow env) (block.OwnedColumn env picks)
      (block.chainOutput env picks) (block.chainOutput env picks.rejoined) field := by
  intro _
  have looked : Follows (fun carried other => field.aliasName ∈ block.aliases ∧
      carried = block.carriedFor env picks field.aliasName ∧
      other = block.carriedFor env picks.rejoined field.aliasName)
      ((block.chainOutput env picks).relations.lookup field.aliasName)
      ((block.chainOutput env picks.rejoined).relations.lookup field.aliasName) := by
    apply (lookup_relations collapsed.counts).imp
    rintro carried ⟨mem, same⟩
    exact ⟨_, lookup_of_mem_aliases collapsed.uncounted_rejoined mem, mem, same, rfl⟩
  unfold allColumns
  apply looked.bind
  rintro carried other ⟨mem, rfl, rfl⟩
  refine (follows_pure _ _).mpr ⟨?_, ?_⟩
  · rw [map_map]
    refine map_congr_left fun column kept => ?_
    exact congrArg (column, ·) (collapsed.term_rescoped mem kept).1
  · intro entry inEntries
    obtain ⟨column, kept, rfl⟩ := mem_map.mp inEntries
    exact (collapsed.term_rescoped mem kept).2

end Collapsed

/-- The final SELECT of a collapsed line has the clauses of the one that joins the row sets again, all
read from the last row set. -/
structure RejoinsAlike (block : Block Nested) (env : Setting) (picks : Decisions)
    (ofLast ofJoins : Select Statement) : Prop where
  corresponds : ofJoins.Corresponds (block.lastRow env) (block.OwnedColumn env picks) ofLast
  conditions : ofLast.conditions = Condition.renameAll (block.lastRow env) ofJoins.conditions
  conditionsRead : ∀ reference ∈ Condition.referencesOf ofJoins.conditions, block.OwnedColumn env picks reference
  lastSource : ofLast.source = .relation (env.rowSetName block.lastAlias) none
  lastJoins : ofLast.joins = []
  lastBounds : ofLast.bounds = none
  joinSource : ofJoins.source = .relation (env.rowSetName block.start.aliasName) none
  joinJoins : ofJoins.joins = block.traversals.map (rowSetJoin env picks.rejoined)
  joinBounds : ofJoins.bounds = none

namespace Collapsed

variable {block : Block Nested} {env : Setting} {picks : Decisions}
variable (collapsed : block.Collapsed picks)

include collapsed

theorem columns_rescoped : Follows (Output.ColumnsRescoped (block.lastRow env) (block.OwnedColumn env picks))
      ((block.chainOutput env picks).columns block)
      ((block.chainOutput env picks.rejoined).columns block) := by
  rw [collapsed.columns_eq, collapsed.columns_eq]
  refine selectedColumns_rescoped collapsed.nearest_eq_none collapsed.nearest_rejoined ?_ ?_
  · exact fun chosen _ => collapsed.rescoped chosen.field
  · exact fun chosen _ => collapsed.wholeRescoped chosen.field

theorem filters_rescoped : Follows (Predicate.AllRescoped (block.lastRow env) (block.OwnedColumn env picks))
      (block.lowerPlaced env.opts.dialect picks (block.chainOutput env picks).scope none).result
      (block.lowerPlaced env.opts.dialect picks.rejoined
        (block.chainOutput env picks.rejoined).scope none).result := by
  have aggregates : (block.chainOutput env picks).scope.aggregates =
      (block.chainOutput env picks.rejoined).scope.aggregates := rfl
  exact Predicate.lowerAll_rescoped env.opts.dialect aggregates
    (block.placedAt picks.placements none) fun field _ => collapsed.rescoped field

/-- The order of the result is computed too, though it does not change the rows. -/
theorem orderBy_follows : Follows (fun _ _ => True) ((block.chainOutput env picks).orderBy block.orderBy)
      ((block.chainOutput env picks.rejoined).orderBy block.orderBy) := by
  have keys : Follows _ ((block.chainOutput env picks).sortKeys block.orderBy)
      ((block.chainOutput env picks.rejoined).sortKeys block.orderBy) :=
    sortKeys_rescoped fun order _ => collapsed.rescoped order.field
  simp only [Output.orderBy, collapsed.nearest_eq_none, collapsed.nearest_rejoined]
  exact keys.bind fun _ _ _ => (follows_pure _ _).mpr trivial

theorem selects_alike : Follows (block.RejoinsAlike env picks) (block.chainSelect env picks).result
      (block.chainSelect env picks.rejoined).result := by
  have joinedAgain : picks.rejoined.collapse = false := rfl
  rw [result_chainSelect, result_chainSelect]
  simp only [collapsed.counts, collapsed.uncounted_rejoined, Option.isNone_none, if_true,
    collapsed.groupBy, collapsed.having, collapsed.collapse, joinedAgain, Bool.false_eq_true,
    if_false]
  apply collapsed.columns_rescoped.bind
  intro columns others columnsAlike
  apply collapsed.filters_rescoped.bind
  intro conditions sources conditionsAlike
  apply collapsed.orderBy_follows.bind
  intro keys orders _
  refine (follows_pure _ _).mpr ⟨⟨columnsAlike.1, rfl, rfl, columnsAlike.2, by simp, by simp⟩,
    conditionsAlike.1, conditionsAlike.2, rfl, rfl, ?_, rfl, rfl, ?_⟩
  · exact bounds_eq_none collapsed.nearest_eq_none collapsed.limit collapsed.offset
  · exact bounds_eq_none collapsed.nearest_rejoined collapsed.limit collapsed.offset

end Collapsed

end Block

end GraphSql
