import GraphSql.Lowering.Output
import GraphSql.Proofs.Lowering.Predicate
import GraphSql.Proofs.Scoping

namespace GraphSql

open List Traced

variable {reach : List Visible}

namespace Relations

variable {relations : Relations} {field : Field}

/-- Some columns are carried for each alias, and all of them are in reach. -/
structure InReach (relations : Relations) (reach : List Visible) : Prop where
  columns : ∀ carried ∈ relations.carried, ∀ column ∈ carried.columns,
    (term carried column).Reads (Reference.InReach reach)
  nonempty : ∀ carried ∈ relations.carried, carried.columns ≠ []

/-- The columns in which the field is looked up are carried wherever its alias has them. -/
def Keeps (relations : Relations) (field : Field) : Prop :=
  ∀ carried ∈ relations.carried, carried.aliasName = field.aliasName →
    ∀ column ∈ field.readColumns, column.existsOn carried.element = true → column ∈ carried.columns

theorem lookup_ensures (relations : Relations) (aliasName : String) :
    Ensures (relations.lookup aliasName) fun carried =>
      carried ∈ relations.carried ∧ carried.aliasName = aliasName := by
  unfold lookup
  split
  · simp
  · split
    · next carried found =>
      have known := List.find?_some found
      exact ⟨mem_of_find?_eq_some found, by simpa using known⟩
    · simp

theorem column_of_lookup {aliasName : String} {carried : Carried} {wanted : Column}
    (found : relations.lookup aliasName = .ok carried)
    (present : wanted.existsOn carried.element = true) (kept : wanted ∈ carried.columns) :
    relations.column aliasName wanted = .ok (term carried wanted) := by
  have checked : checkColumn aliasName carried.element wanted = .ok () := by rw [checkColumn, if_pos present]
  unfold column
  rw [found]
  simp only [bind, Except.bind, checked, contains_iff_mem.mpr kept, if_true]
  rfl

theorem InReach.allColumns (inReach : relations.InReach reach) (aliasName : String) :
    Ensures (relations.allColumns aliasName) fun columns =>
      columns ≠ [] ∧ ∀ column ∈ columns, column.2.Reads (Reference.InReach reach) := by
  unfold Relations.allColumns
  rw [ensures_bind]
  apply (relations.lookup_ensures aliasName).imp
  rintro carried ⟨member, -⟩
  refine ⟨?_, ?_⟩
  · simpa using inReach.nonempty carried member
  · intro column mem
    obtain ⟨kept, carriedColumn, rfl⟩ := mem_map.mp mem
    exact inReach.columns carried member kept carriedColumn

/-- A column that is kept is read, and a column that the alias does not have is rejected. -/
theorem InReach.serves (inReach : relations.InReach reach) (keeps : relations.Keeps field) (aggregates : Bool) :
    (relations.scope aggregates).Serves (Reference.InReach reach) field := by
  intro wanted needed
  change Ensures (relations.column field.aliasName wanted) _
  unfold column
  rw [ensures_bind]
  apply (relations.lookup_ensures field.aliasName).imp
  rintro carried ⟨member, name⟩
  unfold checkColumn
  split
  · next present =>
    have kept := keeps carried member name wanted needed present
    rw [ensures_bind, ensures_ok, if_pos (by simpa using kept), ensures_pure]
    exact inReach.columns carried member wanted kept
  · simp

end Relations

namespace Output

variable {output : Output} {σ : Type} {block : Block σ}

/-- What the final SELECT takes from its surroundings is in reach. -/
structure InReach (output : Output) (reach : List Visible) : Prop where
  relations : output.relations.InReach reach
  nearest : ∀ aliasName count, output.nearest = some (aliasName, count) →
    Ensures (output.distance aliasName) (Term.Reads (Reference.InReach reach))
  computed : ∀ index term, output.computed index = some term → term.Reads (Reference.InReach reach)

theorem distanceOf_ensures (inReach : output.InReach reach) (aliasName : String) :
    Ensures (output.distanceOf aliasName) fun terms => ∀ term ∈ terms, term.Reads (Reference.InReach reach) := by
  unfold distanceOf
  split
  · next searched count found =>
    split
    · next same =>
      rw [ensures_bind]
      apply (same ▸ inReach.nearest searched count found).imp
      intro term reads
      simpa using reads
    · simp
  · simp

/-- What a SELECT list is made for. -/
inductive Entry where
  | projection (projection : Projection) (index : Nat)
  | selected (chosen : SelectedField)
  | every (aliasName : String)

def entries (output : Output) (block : Block σ) : List Entry :=
  match block.projection, block.selected with
  | [], some selected => selected.map .selected
  | [], none => output.aliases.map .every
  | projections, _ => projections.zipIdx.map fun entry => .projection entry.1 entry.2

/-- The query asks for the entry. -/
def Entry.IsOf (block : Block σ) : Entry → Prop
  | .projection projected index => (projected, index) ∈ block.projection.zipIdx
  | .selected chosen => chosen ∈ block.selectedFields
  | .every _ => block.projection = [] ∧ block.selected = none

theorem entries_isOf (output : Output) (block : Block σ) : ∀ entry ∈ output.entries block, entry.IsOf block := by
  unfold entries
  split
  · next selected _ found =>
    refine forall_mem_map.mpr fun chosen mem => ?_
    simpa [Entry.IsOf, Block.selectedFields, found] using mem
  · next projection selected => exact forall_mem_map.mpr fun _ _ => ⟨projection, selected⟩
  · exact forall_mem_map.mpr fun _ mem => mem

/-- The columns of an entry. -/
def entryColumns (output : Output) : Entry → Attempt (List OutputColumn)
  | .projection projection index => output.projectionColumns index projection
  | .selected chosen => output.fieldColumns chosen.name chosen.field
  | .every aliasName => do
      let columns ← output.relations.allColumns aliasName
      let distances ← output.distanceOf aliasName
      return columns.map (fun entry => .plain entry.2) ++ distances.map .plain

theorem projectionsFrom_eq (output : Output) (projections : List Projection) (index : Nat) :
    output.projectionsFrom index projections =
      (projections.zipIdx index).mapM (fun entry => output.projectionColumns entry.2 entry.1) >>=
        fun lists => pure lists.flatten := by
  induction projections generalizing index with
  | nil => rfl
  | cons projection rest ih => simp [projectionsFrom, ih, mapM_cons]

theorem selectedColumns_eq (output : Output) (selected : List SelectedField) : output.selectedColumns selected =
      selected.mapM (fun chosen => output.fieldColumns chosen.name chosen.field) >>= fun lists =>
        pure lists.flatten := eq_flatten_mapM rfl fun _ _ => rfl

theorem everyColumn_eq (output : Output) (aliases : List String) : output.everyColumn aliases =
      aliases.mapM (fun aliasName => output.entryColumns (.every aliasName)) >>= fun lists => pure lists.flatten :=
  eq_flatten_mapM rfl fun _ _ => by simp only [everyColumn, entryColumns, bind_assoc, pure_bind]

theorem columns_eq (output : Output) (block : Block σ) : output.columns block =
      (output.entries block).mapM output.entryColumns >>= fun lists => pure lists.flatten := by
  unfold columns entries
  split <;> (try simp only [*]) <;> rw [mapM_map]
  · exact output.selectedColumns_eq _
  · exact output.everyColumn_eq _
  · exact output.projectionsFrom_eq _ 0

theorem groupBy_eq (output : Output) (fields : List Field) :
    output.groupBy fields = fields.mapM output.groupKeys >>= fun lists => pure lists.flatten :=
  eq_flatten_mapM rfl fun _ _ => rfl

theorem sortKeys_eq (output : Output) (orders : List Order) : output.sortKeys orders = orders.mapM output.sortKey := by
  induction orders with
  | nil => rfl
  | cons order rest ih => simp [sortKeys, ih, mapM_cons]

/-- What a SELECT list reads of fields, and of aliases as a whole, becomes columns of some kind. -/
structure GivesColumns (output : Output) (holds : OutputColumn → Prop) : Prop where
  field : ∀ (name : String) (field : Field), Returns (field.readTyped output.scope) fun term =>
    holds (.quoted term name)
  all : ∀ aliasName, Returns (output.relations.allColumns aliasName) fun columns =>
    ∀ column ∈ columns, holds (.plain column.2) ∧ ∀ name, holds (.quoted column.2 name)
  distance : ∀ aliasName, Returns (output.distanceOf aliasName) fun terms =>
    ∀ term ∈ terms, holds (.plain term) ∧ ∀ name, holds (.quoted term name)

section EachColumn

variable {holds : OutputColumn → Prop} (gives : output.GivesColumns holds)

include gives

theorem fieldColumns_each (name : String) (field : Field) :
    Returns (output.fieldColumns name field) fun columns => ∀ column ∈ columns, holds column := by
  have single : Returns (do return [OutputColumn.quoted (← field.readTyped output.scope) name])
      fun columns => ∀ column ∈ columns, holds column := by
    rw [returns_bind]
    exact (gives.field name field).imp fun _ held => forall_mem_singleton.mpr held
  unfold fieldColumns
  rw [returns_bind]
  refine returns_all fun target => ?_
  cases target with
  | whole =>
    simp only [returns_bind, returns_pure]
    apply (gives.all field.aliasName).imp
    intro columns ofColumns
    apply (gives.distance field.aliasName).imp
    intro distances ofDistances
    refine forall_mem_append.mpr ⟨forall_mem_map.mpr ?_, forall_mem_map.mpr ?_⟩
    · exact fun column mem => (ofColumns column mem).2 _
    · exact fun term mem => (ofDistances term mem).2 _
  | column _ | property _ => exact single

variable
  (computed : ∀ index term, output.computed index = some term → ∀ name, holds (.quoted term name))
  (aggregates : ∀ (expression : Aggregate) (name : String),
    Returns (expression.lower output.aggregateScope) fun term => holds (.quoted term name))

include computed aggregates

theorem entryColumns_each (entry : Entry) :
    Returns (output.entryColumns entry) fun columns => ∀ column ∈ columns, holds column := by
  cases entry with
  | projection projection index =>
    simp only [entryColumns, projectionColumns]
    split
    · next term found => exact forall_mem_singleton.mpr (computed index term found _)
    · split
      · exact fieldColumns_each gives _ _
      · next expression _ =>
        rw [returns_bind]
        apply (aggregates expression projection.name).imp
        exact fun _ held => forall_mem_singleton.mpr held
  | selected chosen => exact fieldColumns_each gives _ _
  | every aliasName =>
    simp only [entryColumns, returns_bind, returns_pure]
    apply (gives.all aliasName).imp
    intro columns ofColumns
    apply (gives.distance aliasName).imp
    intro distances ofDistances
    refine forall_mem_append.mpr ⟨forall_mem_map.mpr ?_, forall_mem_map.mpr ?_⟩
    · exact fun column mem => (ofColumns column mem).1
    · exact fun term mem => (ofDistances term mem).1

theorem columns_each (block : Block σ) :
    Returns (output.columns block) fun columns => ∀ column ∈ columns, holds column := by
  rw [columns_eq, returns_bind]
  exact (returns_mapM fun entry _ => entryColumns_each gives computed aggregates entry).imp fun _ =>
    forall_mem_flatten_of_forall₂

end EachColumn

section

variable (inReach : output.InReach reach)

include inReach

theorem fieldColumns_ensures (name : String) {field : Field} (keeps : output.relations.Keeps field) :
    Ensures (output.fieldColumns name field) fun columns => ∀ column ∈ columns, column.InReach reach := by
  have single : Ensures (do return [OutputColumn.quoted (← field.readTyped output.scope) name])
      fun columns => ∀ column ∈ columns, column.InReach reach := by
    rw [ensures_bind]
    apply (inReach.relations.serves keeps false).readTyped.imp
    intro term reads
    simpa [OutputColumn.InReach] using reads
  unfold fieldColumns
  rw [ensures_bind]
  apply field.resolve_ensures.imp
  intro target _
  cases target with
  | whole =>
    simp only [ensures_bind]
    apply (inReach.relations.allColumns field.aliasName).imp
    rintro columns ⟨-, columnsRead⟩
    apply (distanceOf_ensures inReach field.aliasName).imp
    intro distances distancesRead column member
    rcases mem_append.mp member with carried | distance
    · obtain ⟨entry, mem, rfl⟩ := mem_map.mp carried
      exact columnsRead entry mem
    · obtain ⟨term, mem, rfl⟩ := mem_map.mp distance
      exact distancesRead term mem
  | column _ | property _ => exact single

theorem entryColumns_ensures
    (projected : ∀ projection ∈ block.projection, output.relations.Keeps projection.source.fieldOf)
    (selected : ∀ entry ∈ block.selectedFields, output.relations.Keeps entry.field) {entry : Entry}
    (isOf : entry.IsOf block) :
    Ensures (output.entryColumns entry) fun columns => ∀ column ∈ columns, column.InReach reach := by
  cases entry with
  | projection projection index =>
    have keeps := projected projection (fst_mem_of_mem_zipIdx isOf)
    simp only [entryColumns, projectionColumns]
    split
    · next term found => simpa [OutputColumn.InReach] using inReach.computed index term found
    · split
      · next target source => exact fieldColumns_ensures inReach projection.name (by rwa [source] at keeps)
      · next expression source =>
        rw [ensures_bind]
        rw [source] at keeps
        have serves := inReach.relations.serves keeps true
        apply (Aggregate.lower_ensures serves).imp
        intro term reads
        simpa [OutputColumn.InReach] using reads
  | selected chosen => exact fieldColumns_ensures inReach chosen.name (selected chosen isOf)
  | every aliasName =>
    simp only [entryColumns, ensures_bind, ensures_pure]
    apply (inReach.relations.allColumns aliasName).imp
    rintro columns ⟨-, columnsRead⟩
    apply (distanceOf_ensures inReach aliasName).imp
    intro distances distancesRead
    exact forall_mem_append.mpr ⟨forall_mem_map.mpr columnsRead, forall_mem_map.mpr distancesRead⟩

theorem columns_ensures
    (projected : ∀ projection ∈ block.projection, output.relations.Keeps projection.source.fieldOf)
    (selected : ∀ entry ∈ block.selectedFields, output.relations.Keeps entry.field) :
    Ensures (output.columns block) fun columns => ∀ column ∈ columns, column.InReach reach := by
  rw [columns_eq, ensures_bind]
  exact (ensures_mapM fun entry mem => entryColumns_ensures inReach projected selected
    (output.entries_isOf block entry mem)).imp fun _ => forall_mem_flatten_of_forall₂

theorem groupKeys_ensures {field : Field} (keeps : output.relations.Keeps field) :
    Ensures (output.groupKeys field) fun terms =>
      terms ≠ [] ∧ ∀ term ∈ terms, term.Reads (Reference.InReach reach) := by
  have single : Ensures (do return [← field.readTyped output.scope]) fun terms =>
      terms ≠ [] ∧ ∀ term ∈ terms, term.Reads (Reference.InReach reach) := by
    rw [ensures_bind]
    apply (inReach.relations.serves keeps false).readTyped.imp
    intro term reads
    simpa using reads
  unfold groupKeys
  rw [ensures_bind]
  apply field.resolve_ensures.imp
  intro target _
  cases target with
  | whole =>
    rw [ensures_bind]
    apply (inReach.relations.allColumns field.aliasName).imp
    rintro columns ⟨nonempty, columnsRead⟩
    refine ⟨by simpa using nonempty, ?_⟩
    intro term member
    obtain ⟨entry, mem, rfl⟩ := mem_map.mp member
    exact columnsRead entry mem
  | column _ | property _ => exact single

/-- The result is grouped if and only if a field asks for it. -/
theorem groupBy_ensures {fields : List Field} (keeps : ∀ field ∈ fields, output.relations.Keeps field) :
    Ensures (output.groupBy fields) fun terms =>
      terms.isEmpty = fields.isEmpty ∧ ∀ term ∈ terms, term.Reads (Reference.InReach reach) := by
  induction fields with
  | nil => simp [groupBy]
  | cons field rest ih =>
    simp only [groupBy, ensures_bind]
    apply (groupKeys_ensures inReach (keeps field (by simp))).imp
    rintro keys ⟨nonempty, keysRead⟩
    apply (ih fun other mem => keeps other (by simp [mem])).imp
    rintro others ⟨-, othersRead⟩
    refine ⟨by simp [nonempty], ?_⟩
    intro term mem
    exact (mem_append.mp mem).elim (keysRead term) (othersRead term)

theorem having_ensures {holds : Statement → Prop} (dialect : Dialect) {having : Option (Predicate Nested)}
    (keeps : ∀ predicate ∈ having, ∀ field ∈ predicate.fields, output.relations.Keeps field)
    (nested : ∀ predicate ∈ having, ∀ query ∈ predicate.nested, Ensures query.outcome.result holds) :
    Ensures (output.having dialect having).result fun condition =>
      condition.isSome = having.isSome ∧ ∀ lowered ∈ condition, lowered.Admits (Reference.InReach reach) holds := by
  cases having with
  | none => simp [Output.having]
  | some predicate =>
    simp only [Output.having, result_bind, result_pure, ensures_bind]
    have serves : ∀ field ∈ predicate.fields,
        output.aggregateScope.Serves (Reference.InReach reach) field := fun field mem =>
      inReach.relations.serves (keeps predicate rfl field mem) true
    apply (predicate.lower_ensures dialect serves (nested predicate rfl)).imp
    intro condition admitted
    simpa using admitted

theorem sortKey_ensures {order : Order} (keeps : output.relations.Keeps order.field) :
    Ensures (output.sortKey order) fun key => key.term.Reads (Reference.InReach reach) := by
  have serves : output.scope.Serves (Reference.InReach reach) order.field := inReach.relations.serves keeps false
  have typed : Ensures (do
      let term ← order.field.readTyped output.scope
      return (⟨term, order.direction, order.nulls⟩ : SortKey))
      fun key => key.term.Reads (Reference.InReach reach) := by
    rw [ensures_bind]
    exact serves.readTyped.imp fun term reads => reads
  unfold sortKey
  dsimp only
  rw [ensures_bind]
  apply order.field.resolve_ensures.imp
  intro target found
  cases target with
  | whole =>
    rw [ensures_bind]
    exact (serves.whole found).imp fun term reads => reads
  | column _ | property _ =>
    cases order.field.declaredType with
    | none => exact typed
    | some valueType =>
      rw [ensures_bind]
      exact (order.field.rejectContainer_ensures _ _).imp fun _ _ => typed

end

section

variable (inReach : output.InReach reach) {orders : List Order}
variable (keeps : ∀ order ∈ orders, output.relations.Keeps order.field)

include inReach keeps

theorem sortKeys_ensures : Ensures (output.sortKeys orders) fun keys =>
      keys.isEmpty = orders.isEmpty ∧ ∀ key ∈ keys, key.term.Reads (Reference.InReach reach) := by
  rw [sortKeys_eq]
  apply (ensures_mapM fun order mem => sortKey_ensures inReach (keeps order mem)).imp
  intro keys each
  exact ⟨by cases each <;> rfl, forall_mem_of_forall₂ each.flip⟩

/-- The result is ordered if and only if the query orders it or searches for neighbours. -/
theorem orderBy_ensures : Ensures (output.orderBy orders) fun keys =>
      keys.isEmpty = (orders.isEmpty && output.nearest.isNone) ∧
        ∀ key ∈ keys, key.term.Reads (Reference.InReach reach) := by
  unfold orderBy
  split
  · next aliasName count found =>
    simp only [ensures_bind, ensures_pure]
    apply (inReach.nearest aliasName count found).imp
    intro distance distanceReads
    apply (sortKeys_ensures inReach keeps).imp
    rintro keys ⟨-, keysRead⟩
    exact ⟨by simp [found], by simpa using ⟨distanceReads, keysRead⟩⟩
  · next absent =>
    simp only [pure_bind, ensures_bind, nil_append]
    apply (sortKeys_ensures inReach keeps).imp
    rintro keys ⟨empty, keysRead⟩
    exact ⟨by simpa [absent] using empty, keysRead⟩

end

theorem isSome_bounds (output : Output) (block : Block σ) : (output.bounds block).isSome =
      (block.limit.isSome || block.offset.isSome || output.nearest.isSome) := by
  unfold bounds
  cases output.nearest <;> cases block.limit <;> cases block.offset <;> simp

theorem bounds_eq_none (nearest : output.nearest = none) (limit : block.limit = none)
    (offset : block.offset = none) : output.bounds block = none := by
  simp [bounds, nearest, limit, offset]

theorem columns_of_projection (output : Output) (mem : block.projection ≠ []) :
    output.columns block = output.projectionsFrom 0 block.projection := by
  unfold columns
  cases projections : block.projection with
  | nil => exact absurd projections mem
  | cons projection rest => rfl

end Output

end GraphSql
