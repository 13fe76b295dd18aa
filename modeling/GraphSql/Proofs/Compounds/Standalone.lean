import GraphSql.Proofs.Compounds.Tagged
import GraphSql.Proofs.Compounds.Tree

namespace GraphSql

open Compound Fragment Level List Reader Statement Traced

variable {level : Level Statement} {leaves : List Query}

section Slots

variable {dialect : Dialect} {schema : Schema}

theorem Term.IsCarried.slots_print {term : Term} (isCarried : term.IsCarried) : (term.print .sqlite).slots = [] := by
  induction term with
  | column row name => rfl
  | extract document pointer extraction ih =>
    simp only [Term.print, Dialect.extract, slots_append, ih isCarried]
    rfl
  | aggregate function argument ih =>
    simp only [Term.print, slots_append, ih isCarried]
    rfl
  | bare | output | integer | slot | now | successor | orZero | arrayLength | pathStart | pathExtend
  | distance => exact isCarried.elim

theorem OutputColumn.IsCarried.slots_print {column : OutputColumn} (isCarried : column.IsCarried) :
    (column.print .sqlite).slots = [] := by
  cases column with
  | plain term => exact Term.IsCarried.slots_print isCarried
  | quoted term name =>
    simp only [OutputColumn.print, slots_append, Term.IsCarried.slots_print isCarried]
    rfl
  | named | every => exact isCarried.elim

theorem Level.IsLeaf.slots_select {name : String} (isLeaf : level.IsLeaf name) :
    ((level.select.map (Statement.print .sqlite schema)).print .sqlite schema "\n").slots = [] := by
  obtain ⟨columns, isCarried, same⟩ := isLeaf.select
  have list : (join ", " (columns.map (OutputColumn.print .sqlite))).slots = [] := by
    rw [slots_join, flatMap_map, flatMap_eq_nil_iff]
    exact fun column mem => (isCarried column mem).slots_print
  rw [same]
  simp only [Select.map, Select.print, slots_append, list]
  rfl

theorem slots_printRowSets (isRecursive : Bool) (rowSets : List (RowSet Fragment)) :
    (printRowSets dialect schema isRecursive rowSets).slots =
      rowSets.flatMap fun rowSet => (rowSet.print dialect schema).slots := by
  cases rowSets with
  | nil => rfl
  | cons first rest =>
    rw [printRowSets, slots_append, slots_append, slots_ofString, slots_ofString, slots_join,
      flatMap_map, nil_append, append_nil]
    simp

/-- The slots of a row set whose nested statements are printed. -/
def RowSet.slots (dialect : Dialect) (schema : Schema) (rowSet : RowSet Statement) : List Slot :=
  ((rowSet.map (Statement.print dialect schema)).print dialect schema).slots

theorem Statement.slots_mk (level : Level Statement) : ((mk level).print dialect schema).slots =
      level.rowSets.flatMap (RowSet.slots dialect schema) ++
        ((level.select.map (print dialect schema)).print dialect schema "\n").slots := by
  rw [print, fold_mk]
  change (printRowSets dialect schema _ (level.rowSets.map _) ++ _).slots = _
  rw [slots_append, slots_printRowSets, flatMap_map]
  rfl

theorem SortKey.slots_print {key : SortKey} {name : String} (output : key.term = .output name) :
    (key.print dialect).slots = [] := by
  obtain ⟨term, direction, nulls⟩ := key
  obtain rfl : term = .output name := output
  cases direction <;> rcases nulls with _ | _ | _ <;> rfl

theorem slots_printOrderBy {keys : List SortKey} (outputs : ∀ key ∈ keys, ∃ name, key.term = .output name) :
    (printOrderBy dialect "\n" keys).slots = [] := by
  have none : (keys.map (SortKey.print dialect)).flatMap slots = [] := by
    rw [flatMap_map, flatMap_eq_nil_iff]
    intro key mem
    obtain ⟨name, output⟩ := outputs key mem
    exact SortKey.slots_print output
  cases keys with
  | nil => rfl
  | cons key rest =>
    change (ofString "\n" ++ ofString "ORDER BY " ++ join ", " _).slots = []
    rw [slots_append, slots_append, slots_join, none]
    rfl

theorem slots_printBounds (bounds : Option Bounds) : (printBounds dialect "\n" bounds).slots = [] := by
  cases bounds <;> rfl

end Slots

def SetTree.labels {α : Type} : SetTree α → List α
  | .leaf label => [label]
  | .node _ left right _ => left.labels ++ right.labels

theorem SetTree.labels_chain {α : Type} (left : SetTree α) (rest : List (SetOperator × SetTree α)) (clauses : Clauses) :
    (left.chain rest clauses).labels = left.labels ++ rest.flatMap fun entry => entry.2.labels := by
  induction rest generalizing left with
  | nil => exact (append_nil _).symm
  | cons entry others ih =>
    obtain ⟨op, right⟩ := entry
    cases others with
    | nil => simp [chain, labels]
    | cons next more =>
      rw [chain, ih, labels, append_assoc]
      rfl

section Compound

variable {dialect : Dialect} {schema : Schema}

mutual

theorem Member.slots_print : (member : Member) → member.Readable dialect schema →
    (member.print dialect schema).slots = (member.tree dialect schema).labels.flatMap Fragment.slots
  | .select body, _ => by rw [Member.print, Member.tree, SetTree.labels, flatMap_singleton]
  | .statement body, _ => by rw [Member.print, Member.tree, SetTree.labels, flatMap_singleton, slots_parenthesized]
  | .grouped body, readable => by
    rw [Member.Readable] at readable
    rw [Member.print, Member.tree, slots_parenthesized, Compound.slots_print body readable.2]
  | .wrapped body, readable => by
    rw [Member.Readable] at readable
    rw [Member.print, Member.tree, slots_append, slots_parenthesized, slots_ofString,
      List.nil_append, Compound.slots_print body readable.2]

/-- A compound has the slots of its leaves, from left to right, and no others. -/
theorem Compound.slots_print : (compound : Compound) → compound.Readable dialect schema →
    (compound.print dialect schema).slots = (compound.tree dialect schema).labels.flatMap Fragment.slots
  | .mk first rest orderBy bounds, readable => by
    rw [Compound.Readable] at readable
    obtain ⟨firstReadable, restReadable, outputs, -⟩ := readable
    rw [Compound.print, Compound.tree, slots_append, slots_append, slots_append,
      slots_printOrderBy outputs, slots_printBounds, Member.slots_print first firstReadable,
      Compound.slots_printRest rest restReadable, SetTree.labels_chain, List.flatMap_append,
      List.append_nil, List.append_nil]

theorem Compound.slots_printRest : (rest : List (SetOperator × Member)) → Compound.RestReadable dialect schema rest →
    (printRest dialect schema rest).slots =
      ((restTrees dialect schema rest).flatMap fun entry => entry.2.labels).flatMap Fragment.slots
  | [], _ => by
    rw [printRest, restTrees]
    rfl
  | (op, mem) :: rest, readable => by
    rw [Compound.RestReadable] at readable
    rw [printRest, restTrees, flatMap_cons, List.flatMap_append, slots_append,
      slots_append, slots_append, slots_append, Member.slots_print mem readable.1,
      Compound.slots_printRest rest readable.2]
    rfl

end

theorem CompoundStatement.slots_print (statement : CompoundStatement)
    (readable : statement.body.Readable dialect schema) :
    (statement.print dialect schema).slots = statement.rowSets.flatMap (RowSet.slots dialect schema) ++
        (statement.body.tree dialect schema).labels.flatMap slots := by
  rw [CompoundStatement.print, slots_append, slots_printRowSets, flatMap_map,
    Compound.slots_print statement.body readable]
  rfl

end Compound

section Labels

variable {α : Type} {isLabel : Query → Nat → α → Prop}

theorem SetOperand.HasTree.labels (operand : SetOperand) (index : Nat) (tree : SetTree α)
    (has : operand.HasTree isLabel index tree) :
    List.Forall₂ (fun leaf label => isLabel leaf.1 leaf.2 label) (operand.leaves.zipIdx index) tree.labels := by
  induction operand generalizing index tree with
  | query query =>
    cases tree with
    | leaf label => exact .cons has .nil
    | node => exact has.elim
  | operation op left right orderBy limit offset ofLeft ofRight =>
    cases tree with
    | leaf => exact has.elim
    | node found first second clauses =>
      rw [SetOperand.leaves, SetOperation.leaves, zipIdx_append, SetTree.labels]
      exact rel_append (ofLeft index first has.2.1) (ofRight _ second has.2.2.1)

theorem SetOperation.HasTree.labels (operation : SetOperation) (index : Nat) (tree : SetTree α)
    (has : operation.HasTree isLabel index tree) :
    List.Forall₂ (fun leaf label => isLabel leaf.1 leaf.2 label) (operation.leaves.zipIdx index) tree.labels :=
  SetOperand.HasTree.labels (.operation operation) _ _ has

end Labels

/-- A query on its own: the level that it is compiled into, and the finished query. -/
structure Standalone where
  level : Level Statement
  compiled : CompiledQuery

/-- The query is compiled into this on its own graph, or else on the given one. -/
structure Query.IsStandalone (opts : Options) (graphId : String) (query : Query) (alone : Standalone) : Prop where
  statement : ∃ plan, (query.statement opts (query.block.graphId.getD graphId)).result = .ok (.mk alone.level, plan)
  compiled : (query.compile opts (query.block.graphId.getD graphId)).result = .ok alone.compiled

/-- The level of a query where this is the leaf with the given position. For SQLite the tag of the
position stands before the names of its row sets. -/
def Level.asLeaf (dialect : Dialect) (index : Nat) (level : Level Statement) : Level Statement :=
  match dialect with
  | .sqlite => level.tagged s!"s{index}_"
  | .postgres => level

def leafLevels (dialect : Dialect) (index : Nat) (alone : List Standalone) : List (Level Statement) :=
  (alone.zipIdx index).map fun (single, number) => single.level.asLeaf dialect number

/-- The slots of a leaf: those of its row sets before the compound, and those of its text. -/
def Level.leafSlots (dialect : Dialect) (schema : Schema) (level : Level Statement) : List Slot :=
  (leafRowSets dialect [level]).flatMap (RowSet.slots dialect schema) ++ (level.leafText dialect schema).slots

theorem Query.statement_eq {opts : Options} {graphId : String} {query : Query} {plan : Plan}
    (compiled : ((query.nested opts).compile { opts, graphId }).result = .ok (level, plan)) :
    (query.statement opts graphId).result = .ok (.mk level, plan) ∧ (query.compile opts graphId).result =
        .ok ⟨opts.dialect, (Statement.mk level).print opts.dialect opts.schema, plan⟩ := by
  have statement : (query.statement opts graphId).result = .ok (.mk level, plan) := by
    unfold Query.statement
    simp only [result_bind, result_logged, result_pure, compiled]
    rfl
  refine ⟨statement, ?_⟩
  unfold Query.compile
  rw [result_bind, statement]
  rfl

section Leaves

variable {opts : Options} {graphId : String}

section

variable {query : Query} {index : Nat} {level : Level Statement}
variable (hasLevel : query.HasLeafLevel opts graphId index level)
variable (movable : Movable opts.dialect [query])

include hasLevel movable

/-- Where the row sets of a leaf move to the front, so do all its slots. -/
theorem Query.HasLeafLevel.slots_leafText (isSqlite : opts.dialect = .sqlite) :
    (level.leafText opts.dialect opts.schema).slots = [] := by
  have isLeaf := hasLevel.isLeaf movable isSqlite
  rw [isSqlite]
  exact isLeaf.slots_select

theorem Query.HasLeafLevel.exists_standalone : ∃ alone, query.IsStandalone opts graphId alone ∧
      level = alone.level.asLeaf opts.dialect index ∧
      level.leafSlots opts.dialect opts.schema = alone.compiled.slots := by
  have leafText := hasLevel.slots_leafText movable
  obtain ⟨plan, compiled⟩ := hasLevel
  cases known : opts.dialect with
  | sqlite =>
    have tag : leafTag opts.dialect.capabilities.compound index = s!"s{index}_" := by
      rw [known]
      rfl
    have hoistable := movable.hoistable known
    have untagged : Setting.tag { opts, graphId := query.block.graphId.getD graphId } = "" := rfl
    obtain ⟨other, returned, tagged, rowSets⟩ :=
      hoistable.exists_untagged untagged (query.nested_ensures opts) compiled
    have isLeaf := (hoistable.compile_isLeaf (.inl rfl)).of_ok returned
    obtain ⟨statement, finished⟩ := statement_eq returned
    refine ⟨⟨other, _⟩, ⟨⟨plan, statement⟩, finished⟩, ?_, ?_⟩
    · rw [tag] at tagged
      exact tagged
    · change _ = ((Statement.mk other).print opts.dialect opts.schema).slots
      have hoisted : leafRowSets .sqlite [level] = level.rowSets := flatMap_singleton _ _
      rw [known] at leafText
      rw [slots_mk, known, isLeaf.slots_select, leafSlots, leafText rfl, hoisted, rowSets, flatMap_map]
      rfl
  | postgres =>
    have untagged : query.leafSetting opts graphId index = { opts, graphId := query.block.graphId.getD graphId } := by
      rw [leafSetting, known]
      rfl
    rw [untagged] at compiled
    obtain ⟨statement, finished⟩ := statement_eq compiled
    refine ⟨⟨level, _⟩, ⟨⟨plan, statement⟩, finished⟩, rfl, ?_⟩
    change _ = ((Statement.mk level).print opts.dialect opts.schema).slots
    rw [known]
    rfl

end

variable {levels : List (Level Statement)}

theorem exists_standalones {index : Nat}
    (hasLevels : List.Forall₂ (fun leaf level => leaf.1.HasLeafLevel opts graphId leaf.2 level)
      (leaves.zipIdx index) levels)
    (movable : Movable opts.dialect leaves) :
    ∃ alone, List.Forall₂ (Query.IsStandalone opts graphId) leaves alone ∧
      levels = leafLevels opts.dialect index alone ∧
      levels.flatMap (leafSlots opts.dialect opts.schema) = alone.flatMap fun single => single.compiled.slots := by
  induction leaves generalizing index levels with
  | nil =>
    cases hasLevels
    exact ⟨[], .nil, rfl, rfl⟩
  | cons leaf others ih =>
    rw [zipIdx_cons] at hasLevels
    obtain ⟨level, rest, hasLevel, hasRest, rfl⟩ := forall₂_cons_left_iff.mp hasLevels
    obtain ⟨single, isStandalone, asLeaf, slots⟩ := hasLevel.exists_standalone movable.of_cons.1
    obtain ⟨alone, areStandalone, asLeaves, restSlots⟩ := ih hasRest movable.of_cons.2
    refine ⟨single :: alone, .cons isStandalone areStandalone, ?_, ?_⟩
    · rw [leafLevels, zipIdx_cons, map_cons]
      exact congrArg₂ cons asLeaf asLeaves
    · rw [flatMap_cons, flatMap_cons, slots, restSlots]

theorem eq_map_leafText {leaves : List (Query × Nat)} {texts : List Fragment}
    (hasLevels : List.Forall₂ (fun leaf level => leaf.1.HasLeafLevel opts graphId leaf.2 level) leaves levels)
    (hasTexts : List.Forall₂ (fun leaf text => leaf.1.HasLeafText opts graphId leaf.2 text) leaves texts) :
    texts = levels.map (Level.leafText opts.dialect opts.schema) := by
  induction hasLevels generalizing texts with
  | nil =>
    cases hasTexts
    rfl
  | cons hasLevel _ ih =>
    obtain ⟨text, rest, ⟨level, same, rfl⟩, hasRest, rfl⟩ := forall₂_cons_left_iff.mp hasTexts
    obtain ⟨plan, compiled⟩ := hasLevel
    obtain ⟨samePlan, sameCompiled⟩ := same
    obtain ⟨rfl, -⟩ := Prod.mk.inj (Except.ok.inj (sameCompiled.symm.trans compiled))
    rw [map_cons, ih hasRest]

/-- The row sets before a compound and then its leaves have the slots of one leaf after another. -/
theorem slots_leaves {index : Nat}
    (hasLevels : List.Forall₂ (fun leaf level => leaf.1.HasLeafLevel opts graphId leaf.2 level)
      (leaves.zipIdx index) levels)
    (movable : Movable opts.dialect leaves) :
    (leafRowSets opts.dialect levels).flatMap (RowSet.slots opts.dialect opts.schema) ++
        (levels.map (Level.leafText opts.dialect opts.schema)).flatMap slots =
      levels.flatMap (leafSlots opts.dialect opts.schema) := by
  induction leaves generalizing index levels with
  | nil =>
    cases hasLevels
    cases opts.dialect <;> rfl
  | cons leaf others ih =>
    rw [zipIdx_cons] at hasLevels
    obtain ⟨level, rest, hasLevel, hasRest, rfl⟩ := forall₂_cons_left_iff.mp hasLevels
    have split : leafRowSets opts.dialect (level :: rest) =
        leafRowSets opts.dialect [level] ++ leafRowSets opts.dialect rest :=
      leafRowSets_append opts.dialect [level] rest
    have others := ih hasRest movable.of_cons.2
    rw [split, flatMap_append, map_cons, flatMap_cons, flatMap_cons, ← others, leafSlots]
    -- The text of this leaf and the row sets of the others change places, and one of them has no slots.
    cases known : opts.dialect with
    | sqlite =>
      have none := hasLevel.slots_leafText movable.of_cons.1 known
      rw [known] at none
      simp [none]
    | postgres =>
      have none : leafRowSets .postgres rest = [] := rfl
      simp [none]

end Leaves

/-- The leaves of a compiled set operation are queries of their own. Each of them is compiled on its
own, for its own graph or else for the given one, and the slots of the whole are theirs from left to
right. Their row sets stand before the compound, if they do not stand in the leaves, and its members
have their texts. -/
theorem SetOperation.leaves_are_standalone (opts : Options) (graphId : String)
    (operation : SetOperation) (compiled : CompiledQuery)
    (returned : (operation.compile opts graphId).result = .ok compiled) :
    ∃ alone, List.Forall₂ (Query.IsStandalone opts graphId) operation.leaves alone ∧
      (compiled.slots = alone.flatMap fun single => single.compiled.slots) ∧
      ∃ statement plan, (operation.statement opts graphId).result = .ok (statement, plan) ∧
        compiled.fragment = statement.print opts.dialect opts.schema ∧
        statement.rowSets = leafRowSets opts.dialect (leafLevels opts.dialect 0 alone) ∧
        (statement.body.tree opts.dialect opts.schema).labels =
          (leafLevels opts.dialect 0 alone).map
            (Level.leafText opts.dialect opts.schema) := by
  obtain ⟨statement, plan, stated, rfl⟩ := operation.exists_statement returned
  have stands := (operation.statement_standsFor opts graphId).of_ok stated
  obtain ⟨levels, hasLevels, rowSets⟩ := stands.serve.levels
  have texts := eq_map_leafText hasLevels
    (SetOperation.HasTree.labels operation 0 _ stands.tree)
  obtain ⟨alone, areStandalone, rfl, slots⟩ := exists_standalones hasLevels stands.movable
  refine ⟨alone, areStandalone, ?_, statement, plan, stated, rfl, rowSets, texts⟩
  calc
    (statement.print opts.dialect opts.schema).slots =
        statement.rowSets.flatMap (RowSet.slots opts.dialect opts.schema) ++
          (statement.body.tree opts.dialect opts.schema).labels.flatMap Fragment.slots :=
      statement.slots_print stands.readable
    _ = (leafLevels opts.dialect 0 alone).flatMap
          (Level.leafSlots opts.dialect opts.schema) := by
      rw [rowSets, texts]
      exact slots_leaves hasLevels stands.movable
    _ = alone.flatMap fun single => single.compiled.slots := slots

theorem guestList.leaves_are_queries :
    ∃ compiled, (guestList.operation.compile {} "party").result = .ok compiled ∧
      ∃ alone, List.Forall₂ (Query.IsStandalone {} "party") guestList.operation.leaves alone ∧
        (compiled.slots = alone.flatMap fun single => single.compiled.slots) ∧
        ∃ statement plan, (guestList.operation.statement {} "party").result = .ok (statement, plan) ∧
          compiled.fragment = statement.print .sqlite {} ∧
          statement.rowSets = (leafLevels .sqlite 0 alone).flatMap Level.rowSets ∧
          (statement.body.tree .sqlite {}).labels =
            (leafLevels .sqlite 0 alone).map (Level.leafText .sqlite {}) := by
  obtain ⟨compiled, returned⟩ := guestList.operation_compiles
  exact ⟨compiled, returned,
    SetOperation.leaves_are_standalone {} "party" guestList.operation compiled returned⟩

end GraphSql
