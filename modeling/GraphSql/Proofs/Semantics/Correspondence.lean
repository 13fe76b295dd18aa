import GraphSql.Proofs.Semantics.Renaming
import GraphSql.Proofs.Semantics.Select

namespace GraphSql

open Function List

variable {ν σ τ : Type}

theorem Term.isAggregate_rename (ρ : Row → Row) (term : Term) : (term.rename ρ).isAggregate = term.isAggregate := by
  induction term with
  | pathExtend path id ofPath ofId => simp [Term.rename, isAggregate, ofPath, ofId]
  | distance metric embedding vector ofEmbedding ofVector => simp [Term.rename, isAggregate, ofEmbedding, ofVector]
  | _ => simp_all [Term.rename, isAggregate]

namespace OutputColumn

/-- Reads a column of a SELECT list through other rows. -/
def rename (ρ : Row → Row) : OutputColumn → OutputColumn
  | .plain term => .plain (term.rename ρ)
  | .named term name => .named (term.rename ρ) name
  | .quoted term name => .quoted (term.rename ρ) name
  | .every row => .every (ρ row)

/-- The column is a single term, which reads only admitted columns. -/
def Reads (reads : Reference → Prop) : OutputColumn → Prop
  | .plain term | .named term _ | .quoted term _ => term.Reads reads
  | .every _ => False

theorem isAggregate_rename (ρ : Row → Row) (column : OutputColumn) :
    (column.rename ρ).isAggregate = column.isAggregate := by
  cases column with
  | every row => rfl
  | plain term | named term name | quoted term name => exact term.isAggregate_rename ρ

end OutputColumn

section Picking

variable [DecidableEq ν] (world : Context ν σ) (select : Select σ)

namespace Select

/-- The keys of the groups. Without grouping terms there is one group, with the empty key. -/
def keys : Multiset (List ν) :=
  if select.groupBy.isEmpty then {[]} else ((select.frames world).map (select.key world)).dedup

/-- The rows in reach that have a key. -/
def group (key : List ν) : Multiset (Frame ν) := (select.frames world).filter (select.key world · = key)

theorem groups_eq_map_keys : select.groups world = (select.keys world).map (select.group world) := by
  unfold groups keys
  split
  · next empty =>
    have same (frame : Frame ν) : select.key world frame = [] := by simp [key, List.isEmpty_iff.mp empty]
    simp [group, same]
  · rfl

theorem injOn_group : Set.InjOn (select.group world) {key | key ∈ select.keys world} := by
  intro first inKeys second otherInKeys same
  unfold keys at inKeys otherInKeys
  split at inKeys
  · next empty =>
    rw [if_pos empty] at otherInKeys
    exact (Multiset.mem_singleton.mp inKeys).trans (Multiset.mem_singleton.mp otherInKeys).symm
  · obtain ⟨frame, inFrames, ofFirst⟩ := Multiset.mem_map.mp (Multiset.mem_dedup.mp inKeys)
    have inGroup : frame ∈ select.group world first := Multiset.mem_filter.mpr ⟨inFrames, ofFirst⟩
    rw [same] at inGroup
    exact ofFirst.symm.trans (Multiset.mem_filter.mp inGroup).2

end Select

/-- A member is picked; where there is none, nothing is. -/
def Picks (members : Multiset τ) : Option τ → Prop
  | some member => member ∈ members
  | none => members = 0

/-- The rows in reach of what is picked. -/
def pickedFrame (frameOf : τ → Frame ν) (pick : Option τ) : Frame ν := (pick.map frameOf).getD []

variable {world select} {members : Multiset τ} {frameOf : τ → Frame ν} {result : Bag ν}

namespace Select

/-- The members whose rows have a key. -/
def membersOf (world : Context ν σ) (select : Select σ) (members : Multiset τ)
    (frameOf : τ → Frame ν) (key : List ν) : Multiset τ :=
  members.filter fun member => select.key world (frameOf member) = key

section Members

variable (frames : select.frames world = members.map frameOf)

include frames

theorem group_eq_map (key : List ν) :
    select.group world key = (select.membersOf world members frameOf key).map frameOf := by
  rw [group, frames, Multiset.filter_map]
  rfl

/-- A choice of a row from each group picks a member for each key. -/
theorem exists_pick {choice : Multiset (Frame ν) → Frame ν} (chooses : select.Chooses world choice) :
    ∃ pick : List ν → Option τ, ∀ key ∈ select.keys world,
      Picks (select.membersOf world members frameOf key) (pick key) ∧
        choice (select.group world key) = pickedFrame frameOf (pick key) := by
  have picked : ∀ key ∈ select.keys world, ∃ pick : Option τ,
      Picks (select.membersOf world members frameOf key) pick ∧
        choice (select.group world key) = pickedFrame frameOf pick := by
    intro key inKeys
    have inGroups : select.group world key ∈ select.groups world := by
      rw [groups_eq_map_keys]
      exact Multiset.mem_map_of_mem _ inKeys
    rcases chooses _ inGroups with chosen | ⟨empty, nothing⟩
    · rw [group_eq_map frames] at chosen
      obtain ⟨member, mem, same⟩ := Multiset.mem_map.mp chosen
      exact ⟨some member, mem, by rw [group_eq_map frames, ← same]; rfl⟩
    · have noMembers := empty
      rw [group_eq_map frames, Multiset.map_eq_zero] at noMembers
      exact ⟨none, noMembers, nothing⟩
  choose! pick spec using picked
  exact ⟨pick, spec⟩

/-- Members that are picked for the keys are a choice of a row from each group. -/
theorem exists_choice {pick : List ν → Option τ} (picks : ∀ key ∈ select.keys world,
      Picks (select.membersOf world members frameOf key) (pick key)) :
    ∃ choice, select.Chooses world choice ∧ ∀ key ∈ select.keys world,
      choice (select.group world key) = pickedFrame frameOf (pick key) := by
  obtain ⟨choice, agree⟩ : ∃ choice : Multiset (Frame ν) → Frame ν, ∀ key ∈ select.keys world,
      choice (select.group world key) = pickedFrame frameOf (pick key) := by
    have keyOf := (injOn_group world select).leftInvOn_invFunOn
    exact ⟨fun group => pickedFrame frameOf (pick (invFunOn (select.group world) _ group)),
      fun key inKeys => by dsimp only; rw [keyOf inKeys]⟩
  refine ⟨choice, ?_, agree⟩
  intro group inGroups
  rw [groups_eq_map_keys] at inGroups
  obtain ⟨key, inKeys, rfl⟩ := Multiset.mem_map.mp inGroups
  have spec := picks key inKeys
  rw [agree key inKeys, group_eq_map frames]
  cases found : pick key with
  | some member =>
    rw [found] at spec
    exact .inl (Multiset.mem_map_of_mem frameOf spec)
  | none =>
    rw [found] at spec
    exact .inr ⟨Multiset.map_eq_zero.mpr spec, rfl⟩

/-- A SELECT that groups the rows of some members returns one row for each key that it keeps. -/
theorem returns_iff_picks (isGrouped : select.isGrouped = true) (unbounded : select.bounds = none) :
    select.Returns world result ↔ ∃ pick : List ν → Option τ, (∀ key ∈ select.keys world,
          Picks (select.membersOf world members frameOf key) (pick key)) ∧
        result = ((select.keys world).filter fun key =>
            select.Keeps world ((select.membersOf world members frameOf key).map frameOf)
              (pickedFrame frameOf (pick key))).map fun key =>
                select.output world ((select.membersOf world members frameOf key).map frameOf)
                  (pickedFrame frameOf (pick key)) := by
  have rows {choice : Multiset (Frame ν) → Frame ν} {pick : List ν → Option τ}
      (agree : ∀ key ∈ select.keys world, choice (select.group world key) = pickedFrame frameOf (pick key)) :
      ((select.groups world).filter fun group =>
          select.Keeps world group (choice group)).map (fun group => select.output world group (choice group)) =
        ((select.keys world).filter fun key =>
          select.Keeps world ((select.membersOf world members frameOf key).map frameOf)
            (pickedFrame frameOf (pick key))).map fun key =>
              select.output world ((select.membersOf world members frameOf key).map frameOf)
                (pickedFrame frameOf (pick key)) := by
    rw [groups_eq_map_keys, Multiset.filter_map, Multiset.map_map]
    refine Multiset.map_congr (Multiset.filter_congr fun key inKeys => ?_) fun key mem => ?_
    · rw [comp_apply, agree key inKeys, group_eq_map frames]
    · rw [comp_apply, agree key (Multiset.mem_of_mem_filter mem), group_eq_map frames]
  simp only [Returns, Answers, isGrouped, if_true, unbounded]
  constructor
  · rintro ⟨answers, ⟨choice, chooses, ofChoice⟩, same⟩
    obtain ⟨pick, spec⟩ := exists_pick frames chooses
    refine ⟨pick, fun key inKeys => (spec key inKeys).1, ?_⟩
    rw [same, ofChoice, Multiset.map_map, ← rows fun key inKeys => (spec key inKeys).2]
    rfl
  · rintro ⟨pick, picks, same⟩
    obtain ⟨choice, chooses, agree⟩ := exists_choice frames picks
    refine ⟨_, ⟨choice, chooses, rfl⟩, ?_⟩
    rw [same, Multiset.map_map, ← rows agree]
    rfl

end Members

theorem returns_iff_frames (isGrouped : select.isGrouped = false) (unbounded : select.bounds = none) :
    select.Returns world result ↔ result = (select.frames world).map (select.output world 0) := by
  simp [Returns, Answers, isGrouped, unbounded, Multiset.map_map]

end Select

/-- A row set with one plain member has the rows that this member makes of the rows in reach. -/
theorem RowSet.returns_frames {rowSet : RowSet σ} (single : rowSet.members = [select]) (ungrouped : select.isGrouped = false)
    (bounds : select.bounds = none) :
    rowSet.Returns world false ((select.frames world).map (select.output world 0)) := by
  rw [RowSet.returns_iff_of_single single, Select.returns_iff_frames ungrouped bounds]

end Picking

/-- Both contexts have one engine and the same nested answers, and what is read of a member is what is
read of it through the other rows. -/
structure FramesAlike (ρ : Row → Row) (reads : Reference → Prop) (world after : Context ν σ)
    (members : Multiset τ) (frameOf otherFrame : τ → Frame ν) : Prop where
  db : after.db = world.db
  answers : after.answers = world.answers
  read : ∀ member ∈ members, ∀ reference, reads reference → world.db.read (frameOf member) reference =
      world.db.read (otherFrame member) (reference.rename ρ)

namespace FramesAlike

variable {ρ : Row → Row} {reads : Reference → Prop} {world after : Context ν σ}
variable {members group : Multiset τ} {frameOf otherFrame : τ → Frame ν} {pick : Option τ}
variable (alike : FramesAlike ρ reads world after members frameOf otherFrame)

include alike

/-- A group of members and a member that is picked are read alike. -/
theorem readAlike (within : group ⊆ members) (picked : ∀ member ∈ pick, member ∈ members)
    {references : List Reference} (admitted : ∀ reference ∈ references, reads reference) :
    ReadAlike world.db ρ group frameOf otherFrame (pickedFrame frameOf pick)
      (pickedFrame otherFrame pick) references where
  row reference mem := by
    cases pick with
    | some member => exact alike.read member (picked member rfl) reference (admitted reference mem)
    | none => cases reference <;> rfl
  group member inGroup reference mem := alike.read member (within inGroup) reference (admitted reference mem)

variable [DecidableEq ν] (within : group ⊆ members) (picked : ∀ member ∈ pick, member ∈ members)

include within picked

theorem eval_eq {term : Term} (admitted : term.Reads reads) :
    term.eval world.db (group.map frameOf) (pickedFrame frameOf pick) =
      (term.rename ρ).eval after.db (group.map otherFrame) (pickedFrame otherFrame pick) := by
  rw [alike.db]
  exact term.eval_rename (alike.readAlike within picked admitted)

theorem record_eq {column : OutputColumn} (admitted : column.Reads reads) :
    column.record world.db (group.map frameOf) (pickedFrame frameOf pick) =
      (column.rename ρ).record after.db (group.map otherFrame) (pickedFrame otherFrame pick) := by
  cases column with
  | plain term =>
    have value := alike.eval_eq within picked admitted
    -- A column that is not renamed by the SELECT list keeps its name.
    cases term with
    | column row name => exact congrArg (fun value => [(name, value)]) value
    | _ => exact congrArg (fun value => [("", value)]) value
  | named term name | quoted term name =>
    exact congrArg (fun value => [(name, value)]) (alike.eval_eq within picked admitted)
  | every row => exact admitted.elim

theorem truth_eq {condition : Condition σ} (admitted : ∀ reference ∈ condition.references, reads reference) :
    condition.truth world (group.map frameOf) (pickedFrame frameOf pick) =
      (condition.rename ρ).truth after (group.map otherFrame) (pickedFrame otherFrame pick) := by
  rw [Condition.truth_of_same alike.db alike.answers]
  exact condition.truth_rename world (alike.readAlike within picked admitted)

end FramesAlike

/-- The clauses of a SELECT are those of another one, read through other rows. The other one reads only
admitted columns. -/
structure Select.Corresponds (ρ : Row → Row) (reads : Reference → Prop) (select other : Select σ) : Prop where
  columns : other.columns = select.columns.map (OutputColumn.rename ρ)
  groupBy : other.groupBy = select.groupBy.map (Term.rename ρ)
  having : other.having = select.having.map (Condition.rename ρ)
  columnsRead : ∀ column ∈ select.columns, column.Reads reads
  groupByRead : ∀ term ∈ select.groupBy, term.Reads reads
  havingReads : ∀ condition ∈ select.having, ∀ reference ∈ condition.references, reads reference

namespace Select.Corresponds

variable {ρ : Row → Row} {reads : Reference → Prop} {select other : Select σ}
variable (corresponds : select.Corresponds ρ reads other)

include corresponds

theorem isGrouped_eq : other.isGrouped = select.isGrouped := by
  have columns : other.columns.any OutputColumn.isAggregate = select.columns.any OutputColumn.isAggregate := by
    rw [corresponds.columns, any_map]
    simp [comp_def, OutputColumn.isAggregate_rename]
  simp [Select.isGrouped, columns, corresponds.groupBy, corresponds.having]

variable [DecidableEq ν] {world after : Context ν σ} {members group : Multiset τ}
variable {frameOf otherFrame : τ → Frame ν} {pick : Option τ}
variable (alike : FramesAlike ρ reads world after members frameOf otherFrame)

include alike

theorem output_eq (within : group ⊆ members) (picked : ∀ member ∈ pick, member ∈ members) :
    select.output world (group.map frameOf) (pickedFrame frameOf pick) =
      other.output after (group.map otherFrame) (pickedFrame otherFrame pick) := by
  rw [output, output, corresponds.columns, flatMap_map]
  exact flatMap_congr fun column mem => alike.record_eq within picked (corresponds.columnsRead column mem)

theorem key_eq {member : τ} (mem : member ∈ members) :
    select.key world (frameOf member) = other.key after (otherFrame member) := by
  rw [key, key, corresponds.groupBy, map_map]
  refine map_congr_left fun term inGroupBy => ?_
  -- The key is computed row by row, without a group.
  have picked : ∀ other ∈ some member, other ∈ members := by simpa using mem
  have nothing : (0 : Multiset τ) ⊆ members := Multiset.zero_subset members
  exact alike.eval_eq nothing picked (corresponds.groupByRead term inGroupBy)

theorem keeps_iff (within : group ⊆ members) (picked : ∀ member ∈ pick, member ∈ members) :
    select.Keeps world (group.map frameOf) (pickedFrame frameOf pick) ↔
      other.Keeps after (group.map otherFrame) (pickedFrame otherFrame pick) := by
  unfold Keeps
  rw [corresponds.having]
  cases having : select.having with
  | none => simp
  | some condition =>
    have admitted := corresponds.havingReads condition having
    simp [alike.truth_eq within picked admitted]

variable (frames : select.frames world = members.map frameOf)
variable (otherFrames : other.frames after = members.map otherFrame)

include frames otherFrames

theorem keys_eq : select.keys world = other.keys after := by
  have keys : (select.frames world).map (select.key world) = (other.frames after).map (other.key after) := by
    rw [frames, otherFrames, Multiset.map_map, Multiset.map_map]
    exact Multiset.map_congr rfl fun member mem => corresponds.key_eq alike mem
  have grouped : other.groupBy.isEmpty = select.groupBy.isEmpty := by rw [corresponds.groupBy, isEmpty_map]
  simp [Select.keys, keys, grouped]

omit frames otherFrames in
theorem membersOf_eq (key : List ν) :
    select.membersOf world members frameOf key = other.membersOf after members otherFrame key := by
  refine Multiset.filter_congr fun member mem => ?_
  rw [corresponds.key_eq alike mem]

/-- Statements whose clauses correspond return the same bags where they read the same members. -/
theorem returns_iff (unbounded : select.bounds = none) (otherUnbounded : other.bounds = none)
    {result : Bag ν} : select.Returns world result ↔ other.Returns after result := by
  cases isGrouped : select.isGrouped with
  | false =>
    have otherGrouped := corresponds.isGrouped_eq.trans isGrouped
    rw [returns_iff_frames isGrouped unbounded, returns_iff_frames otherGrouped otherUnbounded,
      frames, otherFrames, Multiset.map_map, Multiset.map_map]
    have rows : members.map (select.output world 0 ∘ frameOf) = members.map (other.output after 0 ∘ otherFrame) := by
      refine Multiset.map_congr rfl fun member mem => ?_
      have picked : ∀ other ∈ some member, other ∈ members := by simpa using mem
      exact corresponds.output_eq alike (Multiset.zero_subset members) picked
    rw [rows]
  | true =>
    have otherGrouped := corresponds.isGrouped_eq.trans isGrouped
    rw [returns_iff_picks frames isGrouped unbounded, returns_iff_picks otherFrames otherGrouped otherUnbounded,
      ← corresponds.keys_eq alike frames otherFrames]
    simp only [← corresponds.membersOf_eq alike]
    refine exists_congr fun pick => and_congr_right fun picks => ?_
    have within (key : List ν) : select.membersOf world members frameOf key ⊆ members := Multiset.filter_subset _ _
    have picked : ∀ key ∈ select.keys world, ∀ member ∈ pick key, member ∈ members := by
      intro key inKeys member found
      have spec := picks key inKeys
      rw [Option.mem_def.mp found] at spec
      exact within key spec
    rw [Multiset.filter_congr fun key inKeys => corresponds.keeps_iff alike (within key) (picked key inKeys)]
    refine iff_of_eq (congrArg (result = ·) (Multiset.map_congr rfl fun key mem => ?_))
    exact corresponds.output_eq alike (within key) (picked key (Multiset.mem_of_mem_filter mem))

end Select.Corresponds

end GraphSql
