import GraphSql.Proofs.Compounds.Leaf
import GraphSql.Proofs.Equivalence.Rescoping

namespace GraphSql

open List OutputColumn Traced

variable {σ : Type}

/-- Only named row sets have a name that takes a tag. -/
def Row.tagged (tag : String) : Row → Row
  | .relation name => .relation (tag ++ name)
  | row => row

def Source.tagged (tag : String) : Source → Source
  | .table base => .table base
  | .relation name row => .relation (tag ++ name) row
  | .distinct name columns row => .distinct (tag ++ name) columns row

def Join.tagged (tag : String) (join : Join σ) : Join σ :=
  { join with
    source := join.source.tagged tag
    conditions := join.conditions.map (Condition.rename (Row.tagged tag)) }

def SortKey.tagged (tag : String) (key : SortKey) : SortKey := { key with term := key.term.rename (Row.tagged tag) }

def Select.tagged (tag : String) (select : Select σ) : Select σ where
  columns := select.columns.map (rename (Row.tagged tag))
  source := select.source.tagged tag
  joins := select.joins.map (Join.tagged tag)
  conditions := select.conditions.map (Condition.rename (Row.tagged tag))
  groupBy := select.groupBy.map (Term.rename (Row.tagged tag))
  having := select.having.map (Condition.rename (Row.tagged tag))
  orderBy := select.orderBy.map (SortKey.tagged tag)
  bounds := select.bounds

def RowSet.tagged (tag : String) (rowSet : RowSet σ) : RowSet σ :=
  { rowSet with name := tag ++ rowSet.name, members := rowSet.members.map (Select.tagged tag) }

/-- The level with a tag before the names of its row sets. Nested statements have row sets of their
own and stay as they are. -/
def Level.tagged (tag : String) (level : Level σ) : Level σ :=
  { level with
    rowSets := level.rowSets.map (RowSet.tagged tag)
    select := level.select.tagged tag }

section Scoped

variable {holds : σ → Prop} {tag : String} {reach : List Visible}

/-- Nothing in reach is a named row set. -/
def HasNoRelation (reach : List Visible) : Prop := ∀ visible ∈ reach, ∀ name, visible.row ≠ .relation name

theorem Row.tagged_eq_self {row : Row} (other : ∀ name, row ≠ .relation name) : row.tagged tag = row := by
  cases row with
  | relation name => exact absurd rfl (other name)
  | node | edge | embedding | source | walk => rfl

theorem Source.Gives.isTable {source : Source} {visible : Visible} (gives : source.Gives [] visible) :
    source.tagged tag = source ∧ ∀ name, visible.row ≠ .relation name := by
  cases gives with
  | table base =>
    refine ⟨rfl, fun name => ?_⟩
    cases base <;> exact Row.noConfusion
  | relation declared => simp at declared
  | renamed declared => simp at declared
  | distinct declared => simp at declared

namespace HasNoRelation

variable (noRelation : HasNoRelation reach)

include noRelation

theorem rename_reference {reference : Reference} (inReach : reference.InReach reach) :
    reference.rename (Row.tagged tag) = reference := by
  cases reference with
  | column row name =>
    obtain ⟨visible, mem, rfl, -⟩ := inReach
    rw [Reference.rename, Row.tagged_eq_self (noRelation visible mem)]
  | bare name => rfl
  | output name => rfl

theorem rename_term {term : Term} (reads : term.Reads (Reference.InReach reach)) :
    term.rename (Row.tagged tag) = term :=
  Term.rename_eq_self fun reference read => noRelation.rename_reference (reads reference read)

theorem rename_condition {condition : Condition σ} (admits : condition.Admits (Reference.InReach reach) holds) :
    condition.rename (Row.tagged tag) = condition :=
  condition.rename_eq_self fun reference read => noRelation.rename_reference (admits.references reference read)

theorem rename_column {column : OutputColumn} (inReach : column.InReach reach) :
    column.rename (Row.tagged tag) = column := by
  cases column with
  | plain term | named term name | quoted term name => rw [rename, noRelation.rename_term inReach]
  | every row =>
    obtain ⟨visible, mem, rfl⟩ := inReach
    rw [rename, Row.tagged_eq_self (noRelation visible mem)]

end HasNoRelation

theorem Join.Extend.tagged_eq {reach final : List Visible} {joins : List (Join σ)}
    (extend : Join.Extend holds [] reach joins final) (noRelation : HasNoRelation reach) :
    joins.map (Join.tagged tag) = joins ∧ HasNoRelation final := by
  induction joins generalizing reach with
  | nil =>
    obtain rfl : final = reach := extend
    exact ⟨rfl, noRelation⟩
  | cons join rest ih =>
    obtain ⟨visible, gives, admits, after⟩ := extend
    obtain ⟨source, table⟩ := gives.isTable
    have wider : HasNoRelation (visible :: reach) := forall_mem_cons.mpr ⟨table, noRelation⟩
    obtain ⟨others, further⟩ := ih after wider
    refine ⟨?_, further⟩
    have conditions : join.conditions.map (Condition.rename (Row.tagged tag)) = join.conditions :=
      map_eq_self fun condition mem => wider.rename_condition (admits condition mem)
    rw [map_cons, others, Join.tagged, source, conditions]

theorem Select.Scoped.tagged_eq {select : Select σ} {outputs : List String}
    (reaches : select.Scoped holds [] outputs) : select.tagged tag = select := by
  obtain ⟨first, reach, gives, extend, reads, -⟩ := reaches
  obtain ⟨source, table⟩ := gives.isTable
  obtain ⟨joins, noRelation⟩ := extend.tagged_eq (forall_mem_singleton.mpr table)
  have columns : select.columns.map (rename (Row.tagged tag)) = select.columns :=
    map_eq_self fun column mem => noRelation.rename_column (reads.columns column mem)
  have conditions : select.conditions.map (Condition.rename (Row.tagged tag)) = select.conditions :=
    map_eq_self fun condition mem => noRelation.rename_condition (reads.conditions condition mem)
  have groupBy : select.groupBy.map (Term.rename (Row.tagged tag)) = select.groupBy :=
    map_eq_self fun term mem => noRelation.rename_term (reads.groupBy term mem)
  have having : select.having.map (Condition.rename (Row.tagged tag)) = select.having := by
    cases present : select.having with
    | none => rfl
    | some condition => exact congrArg some (noRelation.rename_condition (reads.having condition present))
  have orderBy : select.orderBy.map (SortKey.tagged tag) = select.orderBy :=
    map_eq_self fun key mem => by rw [SortKey.tagged, noRelation.rename_term (reads.orderBy key mem)]
  rw [Select.tagged, columns, source, joins, conditions, groupBy, having, orderBy]

end Scoped

theorem rowSetName_eq_append (tag aliasName : String) : rowSetName tag aliasName = tag ++ rowSetName "" aliasName := by
  have empty : rowSetName "" aliasName = "cte_" ++ aliasName := rfl
  rw [empty, rowSetName, String.append_assoc]

section Relations

variable {tag : String} {relations : Relations}

def Carried.tagged (tag : String) (carried : Carried) : Carried := { carried with relation := tag ++ carried.relation }

def Relations.tagged (tag : String) (relations : Relations) : Relations :=
  { relations with carried := relations.carried.map (Carried.tagged tag) }

namespace Relations

variable (aliasName : String)

theorem lookup_tagged : (relations.tagged tag).lookup aliasName =
      (relations.lookup aliasName).map (Carried.tagged tag) := by
  have found : (relations.tagged tag).find? aliasName =
      (relations.find? aliasName).map (Carried.tagged tag) := find?_map
  have unavailable : (relations.tagged tag).unavailable = relations.unavailable := rfl
  unfold lookup
  rw [found, unavailable]
  cases relations.unavailable.find? (·.1 == aliasName) with
  | some reason => rfl
  | none => cases relations.find? aliasName <;> rfl

theorem column_tagged (wanted : Column) : (relations.tagged tag).column aliasName wanted =
      (relations.column aliasName wanted).map (Term.rename (Row.tagged tag)) := by
  unfold column
  rw [lookup_tagged]
  cases relations.lookup aliasName with
  | error error => rfl
  | ok carried =>
    change (checkColumn aliasName carried.element wanted >>= fun _ => _) =
      Except.map _ (checkColumn aliasName carried.element wanted >>= fun _ => _)
    cases checkColumn aliasName carried.element wanted with
    | error error => rfl
    | ok _ =>
      change (if carried.columns.contains wanted then _ else _) =
        Except.map _ (if carried.columns.contains wanted then _ else _)
      split <;> rfl

theorem allColumns_tagged : (relations.tagged tag).allColumns aliasName =
      (relations.allColumns aliasName).map (map (Prod.map id (Term.rename (Row.tagged tag)))) := by
  unfold allColumns
  rw [lookup_tagged]
  cases relations.lookup aliasName with
  | error error => rfl
  | ok carried =>
    change Except.ok _ = Except.ok (map _ (carried.columns.map _))
    rw [map_map]
    rfl

end Relations

theorem follows_map {α β : Type} {related : α → β → Prop} {f : β → α}
    {result : Attempt β} (each : ∀ value, related (f value) value) :
    Follows related (result.map f) result := by
  cases result with
  | error error => trivial
  | ok value => exact (follows_ok _ _).mpr (each value)

theorem Field.rescoped_tagged (tag : String) (relations : Relations) (aggregates : Bool) (field : Field) :
    field.Rescoped (Row.tagged tag) (fun _ => True) ((relations.tagged tag).scope aggregates)
      (relations.scope aggregates) := by
  intro column _
  change Follows _ ((relations.tagged tag).column field.aliasName column) (relations.column field.aliasName column)
  rw [Relations.column_tagged]
  exact follows_map fun term => ⟨rfl, fun _ _ => trivial⟩

theorem Relations.allColumns_rescoped (tag : String) (relations : Relations) (aliasName : String) :
    Follows (Output.EntriesRescoped (Row.tagged tag) fun _ => True)
      ((relations.tagged tag).allColumns aliasName) (relations.allColumns aliasName) := by
  rw [Relations.allColumns_tagged]
  exact follows_map fun entries => ⟨rfl, fun _ _ _ _ => trivial⟩

end Relations

namespace Output

variable {output : Output} {tag : String}

/-- Reads the tagged row sets. -/
def tagged (tag : String) (output : Output) : Output := { output with relations := output.relations.tagged tag }

theorem everyColumn_rescoped (nearest : output.nearest = none) (aliases : List String) :
    Follows (ColumnsRescoped (Row.tagged tag) fun _ => True) ((output.tagged tag).everyColumn aliases)
      (output.everyColumn aliases) := by
  have otherNearest : (output.tagged tag).nearest = none := nearest
  rw [everyColumn_eq, everyColumn_eq]
  refine follows_flatten fun aliasName _ => ?_
  simp only [entryColumns, distanceOf, nearest, otherNearest]
  apply (output.relations.allColumns_rescoped tag aliasName).bind
  intro entries others same
  refine (follows_pure _ _).mpr ⟨?_, ?_⟩
  · rw [same.1]
    simp [rename, Function.comp_def]
  · rw [map_nil, append_nil]
    exact forall_mem_map.mpr same.2

theorem columns_tagged (nearest : output.nearest = none)
    (uncomputed : ∀ index, output.computed index = none) (block : Block σ) :
    Follows (fun columns others => columns = others.map (rename (Row.tagged tag)))
      ((output.tagged tag).columns block) (output.columns block) := by
  have rescoped (field : Field) : field.Rescoped (Row.tagged tag) (fun _ => True)
      (output.tagged tag).scope output.scope := field.rescoped_tagged tag output.relations false
  have whole (field : Field) : WholeRescoped (Row.tagged tag) (fun _ => True) (output.tagged tag)
      output field := fun _ => output.relations.allColumns_rescoped tag field.aliasName
  have otherNearest : (output.tagged tag).nearest = none := nearest
  have otherUncomputed (index : Nat) : (output.tagged tag).computed index = none := uncomputed index
  have follows : Follows (ColumnsRescoped (Row.tagged tag) fun _ => True)
      ((output.tagged tag).columns block) (output.columns block) := by
    unfold columns
    split
    · exact selectedColumns_rescoped otherNearest nearest (fun chosen _ => rescoped chosen.field)
        fun chosen _ => whole chosen.field
    · exact everyColumn_rescoped nearest output.aliases
    · exact projectionsFrom_rescoped otherNearest nearest otherUncomputed uncomputed
        (fun projection _ => rescoped projection.source.fieldOf) (fun _ _ target _ => whole target) 0
  apply follows.imp
  rintro columns ⟨others, returned, same⟩
  exact ⟨others, returned, same.1⟩

end Output

theorem Setting.rowSetName_tagged {env : Setting} (untagged : env.tag = "") (tag : String) (aliasName : String) :
    Setting.rowSetName { env with tag } aliasName = tag ++ env.rowSetName aliasName := by
  change GraphSql.rowSetName tag aliasName = tag ++ GraphSql.rowSetName env.tag aliasName
  rw [untagged, rowSetName_eq_append]

namespace Block

variable {env : Setting} (untagged : env.tag = "")

include untagged

theorem relations_tagged (block : Block σ) (tag : String) (picks : Decisions) :
    block.relations { env with tag } picks = (block.relations env picks).tagged tag := by
  have carried (aliasName : String) : Carried.mk aliasName
          (Setting.rowSetName { env with tag } (block.readFrom picks aliasName))
          (block.elementOf aliasName) (picks.carried aliasName) =
        (Carried.mk aliasName (env.rowSetName (block.readFrom picks aliasName))
          (block.elementOf aliasName) (picks.carried aliasName)).tagged tag := by
    rw [Setting.rowSetName_tagged untagged]
    rfl
  unfold relations Relations.tagged
  dsimp only
  rw [map_map]
  exact congrArg (Relations.mk · _) (map_congr_left fun aliasName _ => carried aliasName)

theorem startRowSet_tagged (block : Block Nested) (tag : String) (picks : Decisions) :
    Follows (fun start other => start = { other with name := tag ++ other.name })
      (block.startRowSet { env with tag } picks).result
      (block.startRowSet env picks).result := by
  unfold startRowSet
  simp only [result_bind, result_pure]
  refine follows_bind_same fun placed => (follows_ok _ _).mpr ?_
  rw [Setting.rowSetName_tagged untagged]

/-- Under a tag, a leaf has the same row set under a longer name, and its SELECT reads that. -/
theorem Hoistable.compile_follows {block : Block Nested} (hoistable : block.Hoistable) (tag : String) :
    Follows (fun compiled other => compiled.2 = other.2 ∧ compiled.1 = { other.1 with
          rowSets := other.1.rowSets.map fun rowSet => { rowSet with name := tag ++ rowSet.name }
          select := other.1.select.tagged tag })
      (block.compile { env with tag }).result (block.compile env).result := by
  rw [hoistable.result_compile, hoistable.result_compile]
  refine follows_bind_same fun _ => ?_
  apply (startRowSet_tagged untagged block tag _).bind
  rintro _ start rfl
  have output : block.chainOutput { env with tag } (block.leafDecisions env.opts) =
      (block.chainOutput env (block.leafDecisions env.opts)).tagged tag := by
    have computed : block.countTerm { env with tag } (block.leafDecisions env.opts) =
        block.countTerm env (block.leafDecisions env.opts) := by
      funext index
      rw [hoistable.countTerm_eq, hoistable.countTerm_eq]
    rw [chainOutput, relations_tagged untagged, computed]
    rfl
  rw [output]
  apply (Output.columns_tagged rfl (hoistable.countTerm_eq env _) block).bind
  rintro _ columns rfl
  refine follows_bind_same fun _ => (follows_pure _ _).mpr ⟨rfl, ?_⟩
  rw [leafLevel, Setting.rowSetName_tagged untagged]
  rfl

/-- A leaf that is compiled under a tag is what it is compiled into without one, with the tag put before
its names. Its row set reads tables only, so that nothing but its own name changes there. -/
theorem Hoistable.exists_untagged {block : Block Nested} (hoistable : block.Hoistable)
    {holds : Statement → Prop} (nested : block.NestedEnsures holds)
    {tag : String} {level : Level Statement} {plan : Plan}
    (compiled : (block.compile { env with tag }).result = .ok (level, plan)) :
    ∃ other, (block.compile env).result = .ok (other, plan) ∧ level = other.tagged tag ∧
      level.rowSets = other.rowSets.map fun rowSet => { rowSet with name := tag ++ rowSet.name } := by
  obtain ⟨⟨other, otherPlan⟩, returned, samePlan, renamed⟩ :=
    (hoistable.compile_follows untagged tag).exists_ok compiled
  obtain rfl : plan = otherPlan := samePlan
  have rowSets := congrArg Level.rowSets renamed
  refine ⟨other, returned, ?_, rowSets⟩
  have sound := (compile_ensures nested env).returns.of_ok returned
  have isTag : IsTag env.tag := .inl untagged
  obtain ⟨member, same⟩ := ((hoistable.compile_isLeaf isTag).of_ok returned).rowSets
  have reaches := sound.1
  rw [Level.Scoped, same] at reaches
  obtain ⟨outputs, reads, -⟩ := reaches
  have unchanged : member.tagged tag = member := reads.1.tagged_eq
  dsimp only at renamed
  rw [renamed, Level.tagged, same]
  simp only [map_cons, map_nil, RowSet.tagged, unchanged]

end Block

end GraphSql
