import GraphSql.Proofs.Reference
import GraphSql.Statement.Printer

namespace GraphSql

open Condition List

variable {reach final wider : List Visible} {known : List Declared} {outputs : List String}
variable {σ τ : Type}

/-- The columns that may be read from a table. A field can name a column that only the other of the
two tables of elements has, so each of them is given the columns of both. -/
def Table.columnNames : Table → List String
  | .nodes | .edges => "graph_id" :: Column.all.map Column.name
  | .embeddings =>
      ["graph_id", "node_kind", "node_id", "field_path", "embedding", "dimensions", "created_at", "updated_at"]

/-- A named row set with the columns that it outputs. -/
structure Declared where
  name : String
  columns : List String
  deriving DecidableEq, Repr

/-- A relation of a FROM clause with the columns that can be read through it. -/
structure Visible where
  row : Row
  columns : List String
  deriving DecidableEq, Repr

/-- What a source of rows makes visible, where some row sets are declared. -/
inductive Source.Gives (known : List Declared) : Source → Visible → Prop where
  | table (base : Table) : Gives known (.table base) ⟨base.row, base.columnNames⟩
  | relation {rowSet : Declared} (declared : rowSet ∈ known) :
      Gives known (.relation rowSet.name none) ⟨.relation rowSet.name, rowSet.columns⟩
  | renamed {rowSet : Declared} (declared : rowSet ∈ known) (row : Row) :
      Gives known (.relation rowSet.name (some row)) ⟨row, rowSet.columns⟩
  | distinct {rowSet : Declared} (declared : rowSet ∈ known) (row : Row) {columns : List String}
      (output : columns ⊆ rowSet.columns) :
      Gives known (.distinct rowSet.name columns row) ⟨row, columns⟩

/-- The column is one of those that can be read through the relation that qualifies it. -/
def Reference.InReach (reach : List Visible) : Reference → Prop
  | .column row name => ∃ visible ∈ reach, visible.row = row ∧ name ∈ visible.columns
  | .bare name => ∃ visible ∈ reach, name ∈ visible.columns
  | .output _ => False

theorem Reference.InReach.mono (included : reach ⊆ wider) {reference : Reference}
    (inReach : reference.InReach reach) : reference.InReach wider := by
  cases reference with
  | column | bare =>
    obtain ⟨visible, mem, output⟩ := inReach
    exact ⟨visible, included mem, output⟩
  | output name => exact inReach

theorem Term.Reads.mono (included : reach ⊆ wider) {term : Term}
    (reads : term.Reads (Reference.InReach reach)) : term.Reads (Reference.InReach wider) :=
  fun reference mem => (reads reference mem).mono included

theorem Term.column_reads {row : Row} {columns : List String} (visible : ⟨row, columns⟩ ∈ reach)
    {name : String} (output : name ∈ columns) :
    (Term.column row name).Reads (Reference.InReach reach) := by
  intro reference mem
  obtain rfl := mem_singleton.mp mem
  exact ⟨_, visible, rfl, output⟩

theorem Term.bare_reads {visible : Visible} (inReach : visible ∈ reach) {name : String}
    (output : name ∈ visible.columns) : (Term.bare name).Reads (Reference.InReach reach) := by
  intro reference mem
  obtain rfl := mem_singleton.mp mem
  exact ⟨visible, inReach, output⟩

namespace OutputColumn

def InReach (reach : List Visible) : OutputColumn → Prop
  | .plain term | .named term _ | .quoted term _ => term.Reads (Reference.InReach reach)
  | .every row => ∃ visible ∈ reach, visible.row = row

/-- The names of the columns that an entry outputs. -/
def names (reach : List Visible) : OutputColumn → List String
  | .plain (.column _ name) => [name]
  | .plain _ => []
  | .named _ name | .quoted _ name => [name]
  | .every row => (reach.filter (·.row = row)).flatMap Visible.columns

theorem names_named {α : Type} (entries : List α) (term : α → Term) (name : α → String) (reach : List Visible) :
    (entries.map fun entry => OutputColumn.named (term entry) (name entry)).flatMap (names reach) =
      entries.map name := by
  rw [flatMap_map]
  exact map_eq_flatMap.symm

end OutputColumn

/-- Joins read what is in reach before them and what they join, and bring the relations that they
join into reach. -/
def Join.Extend (holds : σ → Prop) (known : List Declared) : List Visible → List (Join σ) → List Visible → Prop
  | reach, [], final => final = reach
  | reach, join :: rest, final =>
      ∃ visible, join.source.Gives known visible ∧ (∀ condition ∈ join.conditions,
          condition.Admits (Reference.InReach (visible :: reach)) holds) ∧
        Join.Extend holds known (visible :: reach) rest final

variable {holds : σ → Prop} {joins : List (Join σ)}

theorem Join.Extend.append {middle : List Visible} {first second : List (Join σ)}
    (before : Join.Extend holds known reach first middle)
    (after : Join.Extend holds known middle second final) :
    Join.Extend holds known reach (first ++ second) final := by
  induction first generalizing reach with
  | nil => exact (show middle = reach from before) ▸ after
  | cons join rest ih =>
    obtain ⟨visible, gives, conditions, extend⟩ := before
    exact ⟨visible, gives, conditions, ih extend⟩

/-- Joins keep what is in reach. -/
theorem Join.Extend.subset (extend : Join.Extend holds known reach joins final) : reach ⊆ final := by
  induction joins generalizing reach with
  | nil => exact (show final = reach from extend) ▸ List.Subset.refl _
  | cons join rest ih =>
    obtain ⟨visible, -, -, after⟩ := extend
    exact List.Subset.trans (subset_cons_self _ _) (ih after)

namespace Select

/-- The clauses of a SELECT read only what is in reach. -/
structure Reads (holds : σ → Prop) (reach : List Visible) (select : Select σ) : Prop where
  columns : ∀ column ∈ select.columns, column.InReach reach
  conditions : ∀ condition ∈ select.conditions, condition.Admits (Reference.InReach reach) holds
  groupBy : ∀ term ∈ select.groupBy, term.Reads (Reference.InReach reach)
  having : ∀ condition ∈ select.having, condition.Admits (Reference.InReach reach) holds
  orderBy : ∀ key ∈ select.orderBy, key.term.Reads (Reference.InReach reach)

/-- A SELECT after the declared row sets, with the columns that it outputs. -/
def Scoped (holds : σ → Prop) (known : List Declared) (select : Select σ) (outputs : List String) : Prop :=
  ∃ first reach, select.source.Gives known first ∧
    Join.Extend holds known [first] select.joins reach ∧ select.Reads holds reach ∧
    outputs = select.columns.flatMap (OutputColumn.names reach)

end Select

/-- A row set after the declared ones. All members output the same columns, and those after the
first one may read the row set itself if it is recursive. -/
def RowSet.Scoped (holds : σ → Prop) (isRecursive : Bool) (known : List Declared)
    (rowSet : RowSet σ) (outputs : List String) : Prop :=
  match rowSet.members with
  | [] => False
  | first :: further =>
      first.Scoped holds known outputs ∧ ∀ member ∈ further,
          member.Scoped holds (if isRecursive then ⟨rowSet.name, outputs⟩ :: known else known) outputs

namespace Level

/-- Row sets, each after those before it, and then the SELECT after all of them. -/
def ScopedAfter (holds : σ → Prop) (isRecursive : Bool) (select : Select σ) : List Declared → List (RowSet σ) → Prop
  | known, [] => ∃ outputs, select.Scoped holds known outputs
  | known, rowSet :: rest =>
      ∃ outputs, rowSet.Scoped holds isRecursive known outputs ∧
        ScopedAfter holds isRecursive select (⟨rowSet.name, outputs⟩ :: known) rest

/-- A level whose nested statements have the given property. -/
def Scoped (holds : σ → Prop) (level : Level σ) : Prop :=
  ScopedAfter holds level.isRecursive level.select [] level.rowSets

/-- The SELECTs of a level: those of its row sets and its own. -/
def selects (level : Level σ) : List (Select σ) := level.rowSets.flatMap RowSet.members ++ [level.select]

end Level

section Selects

variable {isRecursive : Bool} {property : Declared → Prop}

/-- Each member of a row set is scoped after row sets with the property. -/
theorem RowSet.Scoped.members {rowSet : RowSet σ} (isScoped : rowSet.Scoped holds isRecursive known outputs)
    (each : ∀ declared ∈ known, property declared) (own : property ⟨rowSet.name, outputs⟩) :
    ∀ member ∈ rowSet.members, ∃ known, (∀ declared ∈ known, property declared) ∧ member.Scoped holds known outputs := by
  unfold RowSet.Scoped at isScoped
  intro member mem
  split at isScoped
  · exact isScoped.elim
  · next first further members =>
    rw [members] at mem
    rcases mem_cons.mp mem with rfl | later
    · exact ⟨known, each, isScoped.1⟩
    · refine ⟨_, ?_, isScoped.2 member later⟩
      split
      · exact forall_mem_cons.mpr ⟨own, each⟩
      · exact each

/-- Each SELECT of a level is scoped after row sets with a property that a row set has after such row sets. -/
theorem Level.Scoped.selects {level : Level σ} (isScoped : level.Scoped holds) (property : Declared → Prop)
    (step : ∀ rowSet ∈ level.rowSets, ∀ known outputs, (∀ declared ∈ known, property declared) →
      rowSet.Scoped holds level.isRecursive known outputs → property ⟨rowSet.name, outputs⟩) :
    ∀ select ∈ level.selects, ∃ known outputs, (∀ declared ∈ known, property declared) ∧
      select.Scoped holds known outputs := by
  have after (known : List Declared) (each : ∀ declared ∈ known, property declared) (rowSets : List (RowSet σ))
      (included : rowSets ⊆ level.rowSets)
      (reaches : ScopedAfter holds level.isRecursive level.select known rowSets) :
      ∀ select ∈ rowSets.flatMap RowSet.members ++ [level.select], ∃ known outputs,
        (∀ declared ∈ known, property declared) ∧ select.Scoped holds known outputs := by
    induction rowSets generalizing known with
    | nil =>
      obtain ⟨outputs, isScoped⟩ := reaches
      exact forall_mem_singleton.mpr ⟨known, outputs, each, isScoped⟩
    | cons rowSet rest ih =>
      obtain ⟨outputs, ofFirst, ofRest⟩ := reaches
      obtain ⟨inLevel, others⟩ := cons_subset.mp included
      have own := step rowSet inLevel known outputs each ofFirst
      rw [flatMap_cons, append_assoc]
      refine forall_mem_append.mpr ⟨fun select inFirst => ?_, ih _ (forall_mem_cons.mpr ⟨own, each⟩) others ofRest⟩
      obtain ⟨known, stands⟩ := ofFirst.members each own select inFirst
      exact ⟨known, outputs, stands⟩
  exact after [] (forall_mem_nil _) level.rowSets (Subset.refl _) isScoped

end Selects

/-- Every level of the statement is scoped. -/
def Statement.WellScoped : Statement → Prop := fold (Level.Scoped id)

variable {select : Select σ}

section Map

variable {holds : τ → Prop} {f : σ → τ} {known : List Declared} {isRecursive : Bool}

theorem Join.extend_map : Join.Extend holds known reach (joins.map (Join.map f)) final ↔
      Join.Extend (fun statement => holds (f statement)) known reach joins final := by
  induction joins generalizing reach with
  | nil => rfl
  | cons join rest ih => simp [Join.Extend, Join.map, forall_admits_mapAll, ih]

theorem Select.reads_map : (select.map f).Reads holds reach ↔
      select.Reads (fun statement => holds (f statement)) reach := by
  have having : (∀ condition ∈ (select.map f).having, condition.Admits (Reference.InReach reach) holds) ↔
      ∀ condition ∈ select.having, condition.Admits (Reference.InReach reach) fun statement => holds (f statement) := by
    simp [Select.map, admits_map]
  constructor
  · intro reads
    exact ⟨reads.columns, forall_admits_mapAll.mp reads.conditions, reads.groupBy,
      having.mp reads.having, reads.orderBy⟩
  · intro reads
    exact ⟨reads.columns, forall_admits_mapAll.mpr reads.conditions, reads.groupBy,
      having.mpr reads.having, reads.orderBy⟩

theorem Select.scoped_map : (select.map f).Scoped holds known outputs ↔
      select.Scoped (fun statement => holds (f statement)) known outputs := by
  simp only [Select.Scoped, Select.reads_map]
  simp only [Select.map, Join.extend_map]

theorem RowSet.scoped_map {rowSet : RowSet σ} : (rowSet.map f).Scoped holds isRecursive known outputs ↔
      rowSet.Scoped (fun statement => holds (f statement)) isRecursive known outputs := by
  cases rowSet with
  | mk name materialized members =>
    cases members with
    | nil => rfl
    | cons first further => simp [RowSet.Scoped, RowSet.map, Select.scoped_map]

theorem Level.scopedAfter_map {rowSets : List (RowSet σ)} :
    ScopedAfter holds isRecursive (select.map f) known (rowSets.map (RowSet.map f)) ↔
      ScopedAfter (fun statement => holds (f statement)) isRecursive select known rowSets := by
  induction rowSets generalizing known with
  | nil => simp [ScopedAfter, Select.scoped_map]
  | cons rowSet rest ih =>
    have name : (rowSet.map f).name = rowSet.name := rfl
    simp [ScopedAfter, RowSet.scoped_map, name, ih]

/-- A statement is well scoped if its outermost level is scoped and all nested statements are. -/
theorem Statement.wellScoped_mk (level : Level Statement) :
    (Statement.mk level).WellScoped ↔ level.Scoped Statement.WellScoped := by
  rw [WellScoped, fold_mk]
  exact Level.scopedAfter_map

end Map

end GraphSql
