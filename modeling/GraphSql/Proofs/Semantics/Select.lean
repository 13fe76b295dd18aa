import GraphSql.Proofs.Semantics.Expression
import GraphSql.Statement.Printer
import Mathlib.Algebra.Order.Group.Multiset

namespace GraphSql

open List

variable {ν σ : Type} {name : String} {rowSet : RowSet σ}

namespace Context

/-- Gives rows to a named row set. -/
def declare (world : Context ν σ) (name : String) (rows : Bag ν) : Context ν σ :=
  { world with relations := Function.update world.relations name rows }

section

variable (world : Context ν σ) (name : String) (rows : Bag ν)

@[simp] theorem engine_declare : (world.declare name rows).db = world.db := rfl

@[simp] theorem tables_declare : (world.declare name rows).tables = world.tables := rfl

@[simp] theorem answers_declare : (world.declare name rows).answers = world.answers := rfl

@[simp] theorem relations_declare : (world.declare name rows).relations name = rows := by simp [declare]

end

theorem relations_declare_of_ne (world : Context ν σ) {other : String} (rows : Bag ν) (apart : other ≠ name) :
    (world.declare name rows).relations other = world.relations other := by
  simp [declare, apart]

end Context

variable [DecidableEq ν] {conditions : List (Condition σ)} {rows result : Bag ν} {select : Select σ}
variable {world : Context ν σ} {members : List (Select σ)}

section Surroundings

variable {world other : Context ν σ}

/-- No condition reads tables or named row sets but through the rows in reach. -/
theorem Condition.truth_of_same (db : other.db = world.db)
    (answers : other.answers = world.answers) {group : Multiset (Frame ν)} {frame : Frame ν}
    (condition : Condition σ) :
    condition.truth other group frame = condition.truth world group frame := by
  induction condition with
  | all conditions ih | any conditions ih | notAll conditions ih =>
    simp only [truth, truths_eq_map, List.map_congr_left ih]
  | equalsCase _ _ _ _ ih => simp [truth, ih, db]
  | _ => simp [truth, db, answers]

theorem Context.holds_of_same (db : other.db = world.db) (answers : other.answers = world.answers) {frame : Frame ν} :
    other.Holds frame conditions ↔ world.Holds frame conditions := by
  simp [Holds, Condition.truth_of_same db answers]

@[simp] theorem Context.holds_declare {frame : Frame ν} :
    (world.declare name rows).Holds frame conditions ↔ world.Holds frame conditions :=
  holds_of_same (world.engine_declare name rows) (world.answers_declare name rows)

end Surroundings

namespace Source

/-- The rows of a source. -/
def records (world : Context ν σ) : Source → Bag ν
  | .table base => world.tables base
  | .relation name _ => world.relations name
  | .distinct name columns _ =>
      ((world.relations name).map fun record =>
        columns.map fun column => (column, world.db.field record column)).dedup

/-- The name that qualifies the columns of a source. -/
def row : Source → Row
  | .table base => base.row
  | .relation name none => .relation name
  | .relation _ (some row) => row
  | .distinct _ _ row => row

@[simp] theorem records_table (world : Context ν σ) (base : Table) :
    (Source.table base).records world = world.tables base := rfl

@[simp] theorem records_relation (world : Context ν σ) (name : String) (row : Option Row) :
    (Source.relation name row).records world = world.relations name := rfl

@[simp] theorem row_table (base : Table) : (Source.table base).row = base.row := rfl

end Source

namespace Join

/-- The rows in reach, each with a row of the source that meets the conditions of the join. -/
def matching (world : Context ν σ) (join : Join σ) (frame : Frame ν) : Multiset (Frame ν) :=
  ((join.source.records world).map fun record => frame ++ [(join.source.row, record)]).filter
    (world.Holds · join.conditions)

/-- The rows in reach after a join. An outer join keeps rows without a match. -/
def extend (world : Context ν σ) (join : Join σ) (frame : Frame ν) : Multiset (Frame ν) :=
  match join.kind with
  | .inner => join.matching world frame
  | .left =>
      if (join.matching world frame).card = 0 then {frame ++ [(join.source.row, [])]}
      else join.matching world frame

def extendAll (world : Context ν σ) : List (Join σ) → Multiset (Frame ν) → Multiset (Frame ν)
  | [], frames => frames
  | join :: rest, frames => extendAll world rest (frames.bind (join.extend world))

theorem extend_inner (world : Context ν σ) {join : Join σ} (inner : join.kind = .inner) (frame : Frame ν) :
    join.extend world frame = ((join.source.records world).filter fun record =>
        world.Holds (frame ++ [(join.source.row, record)]) join.conditions).map fun record =>
          frame ++ [(join.source.row, record)] := by
  unfold extend
  rw [inner]
  exact Multiset.filter_map _ _ _

end Join

def Term.isAggregate : Term → Bool
  | .aggregate .. => true
  | .column .. | .bare _ | .output _ | .integer _ | .slot _ | .now => false
  | .successor term | .orZero term | .extract term _ _ | .arrayLength term _ | .pathStart term => isAggregate term
  | .pathExtend first second | .distance _ first second => isAggregate first || isAggregate second

namespace OutputColumn

def isAggregate : OutputColumn → Bool
  | .plain term | .named term _ | .quoted term _ => term.isAggregate
  | .every _ => false

/-- The columns that an entry of a SELECT list gives, for a row of a group. -/
def record (db : Engine ν) (group : Multiset (Frame ν)) (frame : Frame ν) : OutputColumn → Record ν
  | .plain (.column row name) => [(name, db.read frame (.column row name))]
  | .plain term => [("", term.eval db group frame)]
  | .named term name | .quoted term name => [(name, term.eval db group frame)]
  | .every row => (frame.lookup row).getD []

end OutputColumn

/-- The values of sort keys come before others in the order of the keys. -/
def Engine.sortsBefore (db : Engine ν) : List SortKey → List ν → List ν → Bool
  | key :: keys, first :: firsts, second :: seconds =>
      db.precedes key.direction key.nulls first second ||
        (!db.precedes key.direction key.nulls second first && sortsBefore db keys firsts seconds)
  | _, _, _ => false

namespace Select

section

variable (world : Context ν σ) (select : Select σ)

/-- The rows in reach after the joins, as far as they meet the conditions. -/
def frames : Multiset (Frame ν) :=
  (Join.extendAll world select.joins
    ((select.source.records world).map fun record => [(select.source.row, record)])).filter
      (world.Holds · select.conditions)

def isGrouped : Bool := !select.groupBy.isEmpty || select.having.isSome || select.columns.any OutputColumn.isAggregate

/-- The values by which a row is grouped. -/
def key (frame : Frame ν) : List ν := select.groupBy.map (Term.eval world.db 0 frame)

/-- The groups of rows. Without grouping terms there is one group, even if it is empty. -/
def groups : Multiset (Multiset (Frame ν)) :=
  if select.groupBy.isEmpty then {select.frames world}
  else
    ((select.frames world).map (select.key world)).dedup.map fun key =>
      (select.frames world).filter (select.key world · = key)

/-- The row that a SELECT list gives, for a row of a group. -/
def output (group : Multiset (Frame ν)) (frame : Frame ν) : Record ν :=
  select.columns.flatMap (OutputColumn.record world.db group frame)

/-- The values by which the result is ordered. -/
def sortValues (group : Multiset (Frame ν)) (frame : Frame ν) : List ν :=
  select.orderBy.map fun key => key.term.eval world.db group frame

/-- The group is kept. -/
def Keeps (group : Multiset (Frame ν)) (frame : Frame ν) : Prop :=
  ∀ condition ∈ select.having, condition.truth world group frame = .yes

end

instance (world : Context ν σ) (select : Select σ) (group : Multiset (Frame ν))
    (frame : Frame ν) : Decidable (select.Keeps world group frame) :=
  inferInstanceAs (Decidable (∀ condition ∈ select.having, condition.truth world group frame = .yes))

section

variable (world : Context ν σ) (select : Select σ)

/-- A choice of one row from each group; an empty group has no columns to read. -/
def Chooses (choice : Multiset (Frame ν) → Frame ν) : Prop :=
  ∀ group ∈ select.groups world, choice group ∈ group ∨ group = 0 ∧ choice group = []

/-- The rows before the result is bounded, each with the values by which it is ordered. -/
def Answers (answers : Multiset (List ν × Record ν)) : Prop :=
  if select.isGrouped then
    ∃ choice, select.Chooses world choice ∧ answers = ((select.groups world).filter fun group =>
          select.Keeps world group (choice group)).map fun group =>
            (select.sortValues world group (choice group), select.output world group (choice group))
  else
    answers = (select.frames world).map fun frame => (select.sortValues world 0 frame, select.output world 0 frame)

/-- The rows that a SELECT may return. -/
def Returns (result : Bag ν) : Prop :=
  ∃ answers, select.Answers world answers ∧ match select.bounds with
    | none => result = answers.map Prod.snd
    | some bounds =>
        ∃ ordered : List (List ν × Record ν), ordered = answers ∧ ordered.Pairwise (fun first second =>
            ¬ world.db.sortsBefore select.orderBy second.1 first.1) ∧
          result = ((ordered.drop ((bounds.offset.map UInt64.toNat).getD 0)).take
              ((bounds.limit.map UInt64.toNat).getD ordered.length)).map Prod.snd

end

/-- The SELECT returns one row for each of the rows in reach. -/
structure IsPlain (select : Select σ) : Prop where
  groupBy : select.groupBy = []
  having : select.having = none
  columns : ∀ column ∈ select.columns, column.isAggregate = false
  bounds : select.bounds = none

theorem IsPlain.isGrouped (plain : select.IsPlain) : select.isGrouped = false := by
  simpa [Select.isGrouped, plain.groupBy, plain.having] using plain.columns

theorem IsPlain.returns_iff (plain : select.IsPlain) (world : Context ν σ) : select.Returns world result ↔
      result = (select.frames world).map (select.output world 0) := by
  simp [Returns, Answers, plain.isGrouped, plain.bounds]

/-- The SELECT returns one row for each group of rows in reach. -/
structure IsGrouping (select : Select σ) : Prop where
  groupBy : select.groupBy ≠ []
  having : select.having = none
  bounds : select.bounds = none

namespace IsGrouping

variable {select : Select σ} (grouping : select.IsGrouping) {world : Context ν σ} {result : Bag ν}

include grouping

theorem groups_eq (world : Context ν σ) : select.groups world =
      ((select.frames world).map (select.key world)).dedup.map fun key =>
        (select.frames world).filter (select.key world · = key) := by
  simp [groups, grouping.groupBy]

theorem exists_mem {group : Multiset (Frame ν)} (member : group ∈ select.groups world) : ∃ frame, frame ∈ group := by
  rw [grouping.groups_eq] at member
  obtain ⟨key, mem, rfl⟩ := Multiset.mem_map.mp member
  obtain ⟨frame, inFrames, same⟩ := Multiset.mem_map.mp (Multiset.mem_dedup.mp mem)
  exact ⟨frame, Multiset.mem_filter.mpr ⟨inFrames, same⟩⟩

theorem returns_iff_choice : select.Returns world result ↔ ∃ choice, select.Chooses world choice ∧ result =
          (select.groups world).map fun group => select.output world group (choice group) := by
  have isGrouped : select.isGrouped = true := by simp [Select.isGrouped, grouping.groupBy]
  have keeps (group : Multiset (Frame ν)) (frame : Frame ν) : select.Keeps world group frame := by
    simp [Keeps, grouping.having]
  simp only [Returns, Answers, isGrouped, if_true, grouping.bounds, keeps, Multiset.filter_true]
  constructor
  · rintro ⟨answers, ⟨choice, chooses, rfl⟩, rfl⟩
    exact ⟨choice, chooses, by simp⟩
  · rintro ⟨choice, chooses, rfl⟩
    exact ⟨_, ⟨choice, chooses, rfl⟩, by simp⟩

theorem card_eq (returns : select.Returns world result) : result.card = (select.groups world).card := by
  obtain ⟨choice, -, rfl⟩ := grouping.returns_iff_choice.mp returns
  exact Multiset.card_map _ _

/-- Where the row of a group does not depend on the choice, there is one result. -/
theorem returns_iff {κ : Type} {keys : Multiset κ} {groupOf : κ → Multiset (Frame ν)}
    {row : κ → Record ν} (groups : select.groups world = keys.map groupOf)
    (determined : ∀ key ∈ keys, ∀ frame ∈ groupOf key, select.output world (groupOf key) frame = row key) :
    select.Returns world result ↔ result = keys.map row := by
  have mem {key : κ} (member : key ∈ keys) : groupOf key ∈ select.groups world := by
    rw [groups]
    exact Multiset.mem_map_of_mem groupOf member
  rw [grouping.returns_iff_choice]
  constructor
  · rintro ⟨choice, chooses, same⟩
    rw [same, groups, Multiset.map_map]
    refine Multiset.map_congr rfl fun key member => ?_
    obtain ⟨frame, inGroup⟩ := grouping.exists_mem (mem member)
    rcases chooses _ (mem member) with chosen | ⟨empty, -⟩
    · exact determined key member _ chosen
    · rw [empty] at inGroup
      exact absurd inGroup (Multiset.notMem_zero _)
  · intro same
    have some : ∀ group ∈ select.groups world, ∃ frame, frame ∈ group := fun _ member => grouping.exists_mem member
    choose! choice chosen using some
    refine ⟨choice, fun group member => .inl (chosen group member), ?_⟩
    rw [same, groups, Multiset.map_map]
    exact Multiset.map_congr rfl fun key member => (determined key member _ (chosen _ (mem member))).symm

/-- The groups of rows that have a key in common. -/
theorem groups_of_key {τ κ : Type} [DecidableEq κ] {members : Multiset τ} {frameOf : τ → Frame ν}
    {keyOf : τ → κ} {values : κ → List ν} (injective : Function.Injective values)
    (frames : select.frames world = members.map frameOf)
    (keyed : ∀ member ∈ members, select.key world (frameOf member) = values (keyOf member)) :
    select.groups world = (members.map keyOf).dedup.map fun key => (members.filter (keyOf · = key)).map frameOf := by
  have keys : (members.map frameOf).map (select.key world) = (members.map keyOf).map values := by
    simp only [Multiset.map_map]
    exact Multiset.map_congr rfl keyed
  rw [grouping.groups_eq, frames, keys, Multiset.dedup_map_of_injective injective, Multiset.map_map]
  refine Multiset.map_congr rfl fun key _ => ?_
  rw [Function.comp_apply, Multiset.filter_map]
  refine congrArg _ (Multiset.filter_congr fun member mem => ?_)
  rw [Function.comp_apply, keyed member mem]
  exact injective.eq_iff

end IsGrouping

end Select

/-- Members of a row set return rows together. -/
inductive Select.ReturnTogether (world : Context ν σ) : List (Select σ) → Bag ν → Prop where
  | nil : ReturnTogether world [] 0
  | cons {select : Select σ} {rest : List (Select σ)} {rows others : Bag ν}
      (returns : select.Returns world rows) (together : ReturnTogether world rest others) :
      ReturnTogether world (select :: rest) (rows + others)

theorem Select.returnTogether_iff (plain : ∀ member ∈ members, member.IsPlain) :
    Select.ReturnTogether world members rows ↔ rows = (members.map fun member =>
        (member.frames world).map (member.output world 0)).sum := by
  induction members generalizing rows with
  | nil =>
    constructor
    · rintro ⟨⟩
      rfl
    · rintro rfl
      exact .nil
  | cons member rest ih =>
    rw [forall_mem_cons] at plain
    rw [map_cons, sum_cons]
    constructor
    · intro together
      cases together with
      | cons returns others => rw [(plain.1.returns_iff world).mp returns, (ih plain.2).mp others]
    · rintro rfl
      exact .cons ((plain.1.returns_iff world).mpr rfl) ((ih plain.2).mpr rfl)

theorem Select.sum_outputs (world : Context ν σ) {columns : List OutputColumn}
    (same : ∀ member ∈ members, member.columns = columns) :
    (members.map fun member => (member.frames world).map (member.output world 0)).sum =
      (members.map (Select.frames world)).sum.map fun frame =>
        columns.flatMap (OutputColumn.record world.db 0 frame) := by
  induction members with
  | nil => rfl
  | cons member rest ih =>
    rw [forall_mem_cons] at same
    rw [map_cons, sum_cons, map_cons, sum_cons, Multiset.map_add, ih same.2, ← same.1]
    rfl

/-- A recursive row set grows in rounds: the members read the rows that the last round has added. -/
inductive RowSet.Grows (world : Context ν σ) (name : String) (members : List (Select σ)) : Bag ν → Bag ν → Prop where
  | stop : Grows world name members 0 0
  | round {added next rest : Bag ν} (returns : Select.ReturnTogether (world.declare name added) members next)
      (grows : Grows world name members next rest) :
      Grows world name members added (added + rest)

/-- A recursive row set without rows to start from stays empty, if its members need rows. -/
theorem RowSet.Grows.eq_zero (still : ∀ rows, Select.ReturnTogether (world.declare name 0) members rows → rows = 0)
    {added : Bag ν} (grows : Grows world name members added rows) (empty : added = 0) :
    rows = 0 := by
  induction grows with
  | stop => rfl
  | round returns _ ih =>
    subst empty
    rw [ih (still _ returns), add_zero]

/-- The rows that a row set may have. -/
def RowSet.Returns (world : Context ν σ) (isRecursive : Bool) (rowSet : RowSet σ) (rows : Bag ν) : Prop :=
  ∃ first further start, rowSet.members = first :: further ∧ first.Returns world start ∧
      if isRecursive then RowSet.Grows world rowSet.name further start rows
      else ∃ others, Select.ReturnTogether world further others ∧ rows = start + others

theorem RowSet.returns_iff_of_single (single : rowSet.members = [select]) :
    rowSet.Returns world false rows ↔ select.Returns world rows := by
  constructor
  · rintro ⟨first, further, start, members, returns, others, together, rfl⟩
    rw [single] at members
    obtain ⟨rfl, rfl⟩ := List.cons.inj members
    cases together
    simpa using returns
  · intro returns
    exact ⟨select, [], rows, single, returns, 0, .nil, (add_zero rows).symm⟩

namespace Level

/-- Row sets get their rows one after another. -/
def Prepares (isRecursive : Bool) : Context ν σ → List (RowSet σ) → Context ν σ → Prop
  | world, [], after => after = world
  | world, rowSet :: rest, after =>
      ∃ rows, rowSet.Returns world isRecursive rows ∧ Prepares isRecursive (world.declare rowSet.name rows) rest after

/-- The rows that may be in reach of the SELECT of a level. -/
def Reaches (world : Context ν σ) (level : Level σ) (frames : Multiset (Frame ν)) : Prop :=
  ∃ after, Prepares level.isRecursive world level.rowSets after ∧ frames = level.select.frames after

/-- The rows that a level may return. -/
def Returns (world : Context ν σ) (level : Level σ) (result : Bag ν) : Prop :=
  ∃ after, Prepares level.isRecursive world level.rowSets after ∧ level.select.Returns after result

section Prepared

variable {world after : Context ν σ} {level : Level σ}
  (prepared : ∀ {other}, Prepares level.isRecursive world level.rowSets other ↔ other = after)

include prepared

theorem returns_iff : level.Returns world result ↔ level.select.Returns after result := by
  simp [Returns, prepared]

theorem reaches_iff {frames : Multiset (Frame ν)} :
    level.Reaches world frames ↔ frames = level.select.frames after := by
  simp [Reaches, prepared]

end Prepared

variable {world after : Context ν σ}

/-- A row set with one possible bag of rows gets it. -/
theorem prepares_cons_iff {rest : List (RowSet σ)} (single : rowSet.members = [select])
    (returns : ∀ {other}, select.Returns world other ↔ other = rows) :
    Prepares false world (rowSet :: rest) after ↔ Prepares false (world.declare rowSet.name rows) rest after := by
  simp [Prepares, RowSet.returns_iff_of_single single, returns]

theorem prepares_iff_of_two {first second : RowSet σ} {ofFirst ofSecond : Select σ}
    (single : first.members = [ofFirst]) (other : second.members = [ofSecond]) :
    Prepares false world [first, second] after ↔ ∃ rows, ofFirst.Returns world rows ∧
        ∃ others, ofSecond.Returns (world.declare first.name rows) others ∧
          after = (world.declare first.name rows).declare second.name others := by
  simp [Prepares, RowSet.returns_iff_of_single single, RowSet.returns_iff_of_single other]

/-- Conditions that are added to the SELECT of a level. -/
def restrict (level : Level σ) (conditions : List (Condition σ)) : Level σ :=
  { level with
    select := { level.select with conditions := level.select.conditions ++ conditions } }

section

variable {isRecursive : Bool} {rowSets : List (RowSet σ)}
variable (prepares : Prepares isRecursive world rowSets after)

include prepares

theorem Prepares.same : after.db = world.db ∧ after.answers = world.answers := by
  induction rowSets generalizing world with
  | nil =>
    obtain rfl : after = world := prepares
    exact ⟨rfl, rfl⟩
  | cons rowSet rest ih =>
    obtain ⟨rows, -, later⟩ := prepares
    have afterRows := ih later
    exact afterRows

theorem Prepares.tables_eq : after.tables = world.tables := by
  induction rowSets generalizing world with
  | nil =>
    obtain rfl : after = world := prepares
    rfl
  | cons rowSet rest ih =>
    obtain ⟨rows, -, later⟩ := prepares
    have afterRows := ih later
    exact afterRows

end

theorem frames_restrict (world : Context ν σ) (level : Level σ) (conditions : List (Condition σ)) :
    (level.restrict conditions).select.frames world =
      (level.select.frames world).filter (world.Holds · conditions) := by
  simp only [restrict, Select.frames, Multiset.filter_filter]
  refine Multiset.filter_congr fun frame _ => ?_
  rw [Context.holds_append, and_comm]

/-- Conditions that all rows in reach meet change nothing. -/
theorem returns_restrict {level : Level σ} (met : ∀ frames, level.Reaches world frames →
      ∀ frame ∈ frames, world.Holds frame conditions) :
    (level.restrict conditions).Returns world result ↔ level.Returns world result := by
  refine exists_congr fun after => and_congr_right fun prepares => ?_
  obtain ⟨db, answers⟩ := Prepares.same prepares
  have frames : (level.restrict conditions).select.frames after = level.select.frames after := by
    rw [frames_restrict]
    refine Multiset.filter_eq_self.mpr fun frame mem => ?_
    exact (Context.holds_of_same db answers).mpr (met _ ⟨after, prepares, rfl⟩ frame mem)
  have groups : (level.restrict conditions).select.groups after = level.select.groups after := by
    simp only [Select.groups, frames]
    rfl
  simp only [Select.Returns, Select.Answers, Select.Chooses, groups, frames]
  rfl

end Level

end GraphSql
