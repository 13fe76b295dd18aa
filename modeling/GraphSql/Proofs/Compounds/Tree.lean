import GraphSql.Proofs.Compounds.LeafText

namespace GraphSql

open Compound Fragment Lexeme List Reader Traced

variable {dialect : Dialect} {graphId : String}

/-- The output column orders by the field of the order, in its direction. -/
structure Order.IsNamedBy (projections : List Projection) (order : Order) (output : OutputOrder) : Prop where
  direction : output.direction = order.direction
  nulls : output.nulls = order.nulls
  field : ∃ projection ∈ projections, projection.name = output.name ∧
    ∃ target, projection.source = .field target ∧ target.aliasName = order.field.aliasName ∧
      target.target = order.field.target

/-- The engines take the number, and it stops where the bound does in every result that they can
count. -/
def IsBound (bound : UInt64) (number : Nat) : Prop :=
  number ≤ Dialect.greatestBound ∧ ∀ count ≤ Dialect.greatestBound, min count number = min count bound.toNat

theorem isBound_boundValue (bound : UInt64) : IsBound bound (boundValue bound) := by
  unfold IsBound boundValue
  constructor
  · exact Nat.min_le_right _ _
  · intro count countable
    omega

theorem rel_map_boundValue (bound : Option UInt64) : Option.Rel IsBound bound (bound.map boundValue) := by
  cases bound with
  | none => exact .none
  | some bound => exact .some (isBound_boundValue bound)

section Tree

variable {α β : Type}

mutual

/-- The tree has the operators, operands and clauses of the operand. Each label is that of a leaf,
and the first leaf has the given position. -/
def SetOperand.HasTree (isLabel : Query → Nat → α → Prop) (index : Nat) : SetOperand → SetTree α → Prop
  | .query query, .leaf label => isLabel query index label
  | .query _, .node .. => False
  | .operation operation, tree => SetOperation.HasTree isLabel index operation tree

def SetOperation.HasTree (isLabel : Query → Nat → α → Prop) (index : Nat) : SetOperation → SetTree α → Prop
  | _, .leaf _ => False
  | ⟨op, left, right, orderBy, limit, offset⟩, .node found first second clauses =>
      found = op ∧ SetOperand.HasTree isLabel index left first ∧
        SetOperand.HasTree isLabel (index + left.leaves.length) right second ∧
        List.Forall₂ (Order.IsNamedBy left.leftmost.block.projection) orderBy clauses.order ∧
        Option.Rel IsBound limit clauses.limit ∧ Option.Rel IsBound offset clauses.offset

end

section Alike

variable {isLabel : Query → Nat → β → Prop} {isOther : Query → Nat → α → Prop}
variable {related : α → β → Prop}

variable (labels : ∀ query index found label, related found label →
  isLabel query index label → isOther query index found)
variable {found : SetTree α} {tree : SetTree β} (trees : found.Alike related tree)

include labels trees

/-- A tree with the same operators and clauses, and with labels of the same leaves. -/
theorem SetOperand.HasTree.alike (operand : SetOperand) (index : Nat)
    (has : operand.HasTree isLabel index tree) : operand.HasTree isOther index found := by
  induction operand generalizing index found tree with
  | query query =>
    cases trees with
    | leaf same => exact labels query index _ _ same has
    | node => exact has.elim
  | operation op left right orderBy limit offset ofLeft ofRight =>
    cases trees with
    | leaf => exact has.elim
    | node lefts rights =>
      obtain ⟨same, first, second, clauses⟩ := has
      exact ⟨same, ofLeft lefts _ first, ofRight rights _ second, clauses⟩

theorem SetOperation.HasTree.alike (operation : SetOperation) (index : Nat)
    (has : operation.HasTree isLabel index tree) : operation.HasTree isOther index found :=
  SetOperand.HasTree.alike labels trees (.operation operation) _ has

end Alike

end Tree

section Branch

variable {dialect : Dialect} {schema : Schema}

/-- What one side of a set operation stands for. -/
def Branch.tree (dialect : Dialect) (schema : Schema) : Branch → SetTree Fragment
  | .member single => single.tree dialect schema
  | .compound body => body.tree dialect schema

def Branch.Readable (dialect : Dialect) (schema : Schema) : Branch → Prop
  | .member single => single.Readable dialect schema
  | .compound body => body.Readable dialect schema

/-- A branch that is enclosed as the dialect asks for stands for the same tree. -/
theorem Branch.Readable.asMember {branch : Branch} (readable : branch.Readable dialect schema) :
    (branch.asMember dialect.capabilities.compound).Readable dialect schema ∧
      (branch.asMember dialect.capabilities.compound).tree dialect schema = branch.tree dialect schema := by
  cases branch with
  | member single => exact ⟨readable, rfl⟩
  | compound body =>
    cases dialect with
    | sqlite =>
      change (Member.wrapped body).Readable .sqlite schema ∧
        (Member.wrapped body).tree .sqlite schema = body.tree .sqlite schema
      rw [Member.Readable, Member.tree]
      exact ⟨⟨rfl, readable⟩, rfl⟩
    | postgres =>
      change (Member.grouped body).Readable .postgres schema ∧
        (Member.grouped body).tree .postgres schema = body.tree .postgres schema
      rw [Member.Readable, Member.tree]
      exact ⟨⟨rfl, readable⟩, rfl⟩

/-- Members from left to right that stand for a tree. Only SQLite takes more than one of them. -/
structure Member.IsChain (dialect : Dialect) (schema : Schema)
    (members : Member × List (SetOperator × Member)) (tree : SetTree Fragment) : Prop where
  first : members.1.Readable dialect schema
  rest : Compound.RestReadable dialect schema members.2
  tree : (members.1.tree dialect schema).chain (restTrees dialect schema members.2) {} = tree
  single : dialect = .postgres → members.2 = []

/-- A branch that begins a chain stands for the same tree. Its own chain is continued only if it has
no clauses. -/
theorem Branch.Readable.asChain {branch : Branch} (readable : branch.Readable dialect schema) :
    Member.IsChain dialect schema (branch.asChain dialect.capabilities.compound) (branch.tree dialect schema) := by
  unfold Branch.asChain
  split
  · next first rest hoisted =>
    have isSqlite : dialect ≠ .postgres := by
      rintro rfl
      contradiction
    change (Compound.mk first rest [] none).Readable dialect schema at readable
    rw [Compound.Readable] at readable
    refine ⟨readable.1, readable.2.1, ?_, fun same => absurd same isSqlite⟩
    change _ = (Compound.mk first rest [] none).tree dialect schema
    rw [Compound.tree]
    rfl
  · obtain ⟨memberReadable, same⟩ := readable.asMember
    refine ⟨memberReadable, ?_, ?_, fun _ => rfl⟩
    · rw [Compound.RestReadable]
      trivial
    · rw [restTrees]
      exact same

theorem Compound.restReadable_concat {rest : List (SetOperator × Member)} {member : Member}
    (readable : Compound.RestReadable dialect schema rest)
    (memberReadable : member.Readable dialect schema) (op : SetOperator) :
    Compound.RestReadable dialect schema (rest ++ [(op, member)]) := by
  induction rest with
  | nil =>
    rw [nil_append, Compound.RestReadable, Compound.RestReadable]
    exact ⟨memberReadable, trivial⟩
  | cons entry others ih =>
    rw [Compound.RestReadable] at readable
    rw [cons_append, Compound.RestReadable]
    exact ⟨readable.1, ih readable.2⟩

theorem Compound.restTrees_concat (rest : List (SetOperator × Member)) (op : SetOperator) (member : Member) :
    restTrees dialect schema (rest ++ [(op, member)]) =
      restTrees dialect schema rest ++ [(op, member.tree dialect schema)] := by
  induction rest with
  | nil => simp only [nil_append, restTrees]
  | cons entry others ih => rw [cons_append, restTrees, ih, restTrees, cons_append]

/-- One more member makes its operator the outermost one, with the clauses for the whole. -/
theorem Member.IsChain.concat {members : Member × List (SetOperator × Member)}
    {tree : SetTree Fragment} (isChain : Member.IsChain dialect schema members tree)
    {member : Member} (readable : member.Readable dialect schema) {keys : List SortKey}
    (outputs : ∀ key ∈ keys, ∃ name, key.term = .output name) (op : SetOperator)
    (bounds : Option Bounds) :
    let body := Compound.mk members.1 (members.2 ++ [(op, member)]) keys bounds
    body.Readable dialect schema ∧ body.tree dialect schema = .node op tree (member.tree dialect schema)
        (.ofKeys keys (bounds.bind Bounds.limit) (bounds.bind Bounds.offset)) := by
  refine ⟨?_, ?_⟩
  · rw [Compound.Readable]
    refine ⟨isChain.first, restReadable_concat isChain.rest readable op, outputs, ?_⟩
    cases dialect with
    | sqlite => exact .inr ⟨rfl, by simp⟩
    | postgres =>
      rw [isChain.single rfl]
      exact .inl rfl
  · rw [Compound.tree, restTrees_concat, SetTree.chain_concat, isChain.tree]

end Branch

theorem orderColumn_isNamedBy (projections : List Projection) (order : Order) :
    Returns (orderColumn projections order) fun key =>
      (∃ name, key.term = .output name) ∧ order.IsNamedBy projections key.outputOrder := by
  unfold orderColumn
  rw [returns_bind]
  apply order.field.resolve_ensures.returns.imp
  intro wanted resolved
  dsimp only
  split
  · next projection found =>
    have matched := find?_some found
    refine ⟨⟨projection.name, rfl⟩, rfl, rfl, projection, mem_of_find?_eq_some found, rfl, ?_⟩
    cases source : projection.source with
    | aggregate expression => simp [source] at matched
    | field target =>
      simp only [source, Bool.and_eq_true, beq_iff_eq] at matched
      refine ⟨target, rfl, matched.1, ?_⟩
      rw [resolved, Field.target_of_denotes matched.2]
  · trivial

theorem orderColumns_isNamedBy (projections : List Projection) (orders : List Order) :
    Returns (orderColumns projections orders) fun keys =>
      (∀ key ∈ keys, ∃ name, key.term = .output name) ∧
        List.Forall₂ (Order.IsNamedBy projections) orders (keys.map SortKey.outputOrder) := by
  have each : Returns (orders.mapM (orderColumn projections)) fun keys =>
      (∀ key ∈ keys, ∃ name, key.term = .output name) ∧
        List.Forall₂ (Order.IsNamedBy projections) orders (keys.map SortKey.outputOrder) := by
    induction orders with
    | nil => exact ⟨by simp, .nil⟩
    | cons order rest ih =>
      simp only [mapM_cons, returns_bind, returns_pure]
      apply (orderColumn_isNamedBy projections order).imp
      intro key first
      apply ih.imp
      intro keys others
      exact ⟨forall_mem_cons.mpr ⟨first.1, others.1⟩, .cons first.2 others.2⟩
  unfold orderColumns
  split
  · exact ⟨by simp, .nil⟩
  · split
    · trivial
    · exact each

/-- The text that a level has as a leaf of a compound: the SELECT alone where the row sets move to the
front, and else the whole statement. -/
def Level.leafText (dialect : Dialect) (schema : Schema) (level : Level Statement) : Fragment :=
  match dialect.capabilities.compound with
  | .hoisted => (level.select.map (Statement.print dialect schema)).print dialect schema "\n"
  | .parenthesized => (Statement.mk level).print dialect schema

theorem Level.leafText_hoisted (hoisted : dialect.capabilities.compound = .hoisted)
    (schema : Schema) (level : Level Statement) :
    level.leafText dialect schema = (level.select.map (Statement.print dialect schema)).print dialect schema "\n" := by
  rw [Level.leafText, hoisted]

theorem Level.leafText_parenthesized
    (parenthesized : dialect.capabilities.compound = .parenthesized) (schema : Schema)
    (level : Level Statement) :
    level.leafText dialect schema = (Statement.mk level).print dialect schema := by
  rw [Level.leafText, parenthesized]

section

variable (opts : Options) (graphId : String) (query : Query)

/-- How the leaf with the given position is compiled. -/
def Query.leafSetting (index : Nat) (query : Query) : Setting where
  opts
  graphId := query.block.graphId.getD graphId
  tag := leafTag opts.dialect.capabilities.compound index

/-- The leaf with the given position is compiled into the level. -/
def Query.HasLeafLevel (index : Nat) (level : Level Statement) : Prop :=
  ∃ plan, ((query.nested opts).compile (query.leafSetting opts graphId index)).result = .ok (level, plan)

/-- The fragment is the text of the leaf with the given position. -/
def Query.HasLeafText (index : Nat) (fragment : Fragment) : Prop :=
  ∃ level, query.HasLeafLevel opts graphId index level ∧ fragment = level.leafText opts.dialect opts.schema

end

/-- The row sets of the leaves that stand before a compound. -/
def leafRowSets (dialect : Dialect) (levels : List (Level Statement)) : List (RowSet Statement) :=
  match dialect.capabilities.compound with
  | .hoisted => levels.flatMap Level.rowSets
  | .parenthesized => []

theorem leafRowSets_append (dialect : Dialect) (first second : List (Level Statement)) :
    leafRowSets dialect (first ++ second) = leafRowSets dialect first ++ leafRowSets dialect second := by
  cases dialect with
  | sqlite => exact flatMap_append
  | postgres => rfl

/-- The names of the row sets that stand before a compound with the given leaves, whose first one has
the given position. -/
def leafNames (dialect : Dialect) (index : Nat) (leaves : List Query) : List String :=
  match dialect.capabilities.compound with
  | .hoisted => (leaves.zipIdx index).map fun (leaf, number) => s!"s{number}_cte_{leaf.block.start.aliasName}"
  | .parenthesized => []

theorem rowSetName_leafTag (index : Nat) (aliasName : String) :
    rowSetName (leafTag .hoisted index) aliasName = s!"s{index}_cte_{aliasName}" := by
  have joined (start : String) : start ++ "_" ++ "cte_" = start ++ "_cte_" := String.append_assoc
  change "s" ++ toString index ++ "_" ++ "cte_" ++ aliasName = _
  rw [joined]
  rfl

theorem leafNames_append (dialect : Dialect) (index : Nat) (first second : List Query) :
    leafNames dialect index (first ++ second) =
      leafNames dialect index first ++ leafNames dialect (index + first.length) second := by
  cases dialect with
  | sqlite =>
    change ((first ++ second).zipIdx index).map _ = _
    rw [zipIdx_append, map_append]
    rfl
  | postgres => rfl

/-- The row sets are those that stand before a compound with the given leaves. -/
structure ServeLeaves (opts : Options) (graphId : String) (index : Nat) (leaves : List Query)
    (rowSets : List (RowSet Statement)) : Prop where
  levels : ∃ levels, List.Forall₂ (fun leaf level => leaf.1.HasLeafLevel opts graphId leaf.2 level)
      (leaves.zipIdx index) levels ∧
    rowSets = leafRowSets opts.dialect levels
  names : rowSets.map RowSet.name = leafNames opts.dialect index leaves
  entries : ∀ rowSet ∈ rowSets, (rowSet.map (Statement.print opts.dialect opts.schema)).IsEntry opts.dialect
      opts.schema

variable {opts : Options}

theorem ServeLeaves.append {index : Nat} {leaves others : List Query} {first second : List (RowSet Statement)}
    (firstServe : ServeLeaves opts graphId index leaves first)
    (secondServe : ServeLeaves opts graphId (index + leaves.length) others second) :
    ServeLeaves opts graphId index (leaves ++ others) (first ++ second) := by
  obtain ⟨levels, each, rowSets⟩ := firstServe.levels
  obtain ⟨further, eachOther, otherRowSets⟩ := secondServe.levels
  refine ⟨⟨levels ++ further, ?_, ?_⟩, ?_, ?_⟩
  · rw [zipIdx_append]
    exact rel_append each eachOther
  · rw [leafRowSets_append, rowSets, otherRowSets]
  · rw [leafNames_append, map_append, firstServe.names, secondServe.names]
  · exact forall_mem_append.mpr ⟨firstServe.entries, secondServe.entries⟩

/-- What one side of a set operation has become stands for it. -/
structure Combined.StandsFor (opts : Options) (graphId : String) (index : Nat)
    (operand : SetOperand) (combined : Combined Branch) : Prop where
  readable : combined.body.Readable opts.dialect opts.schema
  tree : operand.HasTree (Query.HasLeafText opts graphId) index
    (combined.body.tree opts.dialect opts.schema)
  serve : ServeLeaves opts graphId index operand.leaves combined.rowSets

section Leaf

variable {opts : Options} {graphId : String} {index : Nat} {query : Query}
variable {level : Level Statement} {plan : Plan}

/-- A leaf whose row set moves to the front leaves its SELECT as a member. -/
theorem Query.standsFor_hoisted (isSqlite : opts.dialect = .sqlite)
    (hasLevel : query.HasLeafLevel opts graphId index level)
    (isLeaf : level.IsLeaf (rowSetName (leafTag .hoisted index) query.block.start.aliasName))
    (reaches : level.Scoped (Statement.Lexes opts.dialect opts.schema)) (named : level.Named) :
    Combined.StandsFor opts graphId index (.query query) ⟨.member (.select level.select), plan, level.rowSets⟩ := by
  have hoisted : opts.dialect.capabilities.compound = .hoisted := by
    rw [isSqlite]
    rfl
  have rowSets : level.rowSets = leafRowSets opts.dialect [level] := by
    rw [isSqlite]
    exact (flatMap_singleton _ _).symm
  refine ⟨?_, ?_, ⟨[level], ?_, rowSets⟩, ?_, ?_⟩
  · change Member.Readable opts.dialect opts.schema (.select level.select)
    rw [Member.Readable, isSqlite]
    exact ⟨rfl, isLeaf.isBareSelect⟩
  · change SetOperand.HasTree _ _ _ (Member.tree opts.dialect opts.schema (.select level.select))
    rw [Member.tree, SetOperand.HasTree]
    exact ⟨level, hasLevel, (level.leafText_hoisted hoisted opts.schema).symm⟩
  · rw [SetOperand.leaves]
    exact .cons hasLevel .nil
  · obtain ⟨member, same⟩ := isLeaf.rowSets
    rw [SetOperand.leaves, isSqlite, same, rowSetName_leafTag]
    rfl
  · rw [isSqlite] at reaches ⊢
    exact isLeaf.isEntry reaches named

theorem Query.standsFor_parenthesized (isPostgres : opts.dialect = .postgres)
    (hasLevel : query.HasLeafLevel opts graphId index level)
    (lexes : (Statement.mk level).Lexes opts.dialect opts.schema) :
    Combined.StandsFor opts graphId index (.query query) ⟨.member (.statement (.mk level)), plan, []⟩ := by
  have parenthesized : opts.dialect.capabilities.compound = .parenthesized := by
    rw [isPostgres]
    rfl
  have rowSets : leafRowSets opts.dialect [level] = [] := by
    rw [isPostgres]
    rfl
  refine ⟨?_, ?_, ⟨[level], ?_, rowSets.symm⟩, ?_, by simp⟩
  · change Member.Readable opts.dialect opts.schema (.statement (.mk level))
    rw [Member.Readable]
    exact ⟨isPostgres, lexes⟩
  · change SetOperand.HasTree _ _ _ (Member.tree opts.dialect opts.schema (.statement (.mk level)))
    rw [Member.tree, SetOperand.HasTree]
    exact ⟨level, hasLevel, (level.leafText_parenthesized parenthesized opts.schema).symm⟩
  · rw [SetOperand.leaves]
    exact .cons hasLevel .nil
  · rw [isPostgres]
    rfl

end Leaf

/-- Where row sets move to the front, nothing keeps those of the leaves from it. -/
def Movable (dialect : Dialect) (leaves : List Query) : Prop :=
  dialect = .sqlite → ∀ leaf ∈ leaves, leaf.block.unhoistable = []

theorem Movable.of_cons {leaf : Query} {others : List Query} (movable : Movable dialect (leaf :: others)) :
    Movable dialect [leaf] ∧ Movable dialect others := by
  constructor
  · intro isSqlite
    exact forall_mem_singleton.mpr (movable isSqlite leaf mem_cons_self)
  · intro isSqlite
    exact (forall_mem_cons.mp (movable isSqlite)).2

theorem Movable.hoistable {query : Query} (movable : Movable opts.dialect [query])
    (isSqlite : opts.dialect = .sqlite) : (query.nested opts).Hoistable :=
  Block.hoistable_map (movable isSqlite query mem_cons_self) (Query.fold (Block.nest opts))

/-- Where row sets move to the front, a leaf that is compiled reads its own row set only. -/
theorem Query.HasLeafLevel.isLeaf {query : Query} {index : Nat} {level : Level Statement}
    (hasLevel : query.HasLeafLevel opts graphId index level)
    (movable : Movable opts.dialect [query]) (isSqlite : opts.dialect = .sqlite) :
    level.IsLeaf (rowSetName (leafTag .hoisted index) query.block.start.aliasName) := by
  obtain ⟨plan, compiled⟩ := hasLevel
  have isLeaf := ((movable.hoistable isSqlite).compile_isLeaf
    (isTag_leafTag opts.dialect.capabilities.compound index)).of_ok compiled
  have tag : leafTag opts.dialect.capabilities.compound index = leafTag .hoisted index := by
    rw [isSqlite]
    rfl
  rw [← tag]
  exact isLeaf

theorem Query.compileLeaf_standsFor (opts : Options) (graphId : String) (index : Nat)
    (query : Query) (movable : Movable opts.dialect [query]) :
    Returns (query.compileLeaf opts graphId index).result (Combined.StandsFor opts graphId index (.query query)) := by
  have isTag := isTag_leafTag opts.dialect.capabilities.compound index
  have ensured := Block.compile_ensures (query.nested_ensures_of (nest_lexes opts))
    (query.leafSetting opts graphId index)
  have named := Block.compile_named (query.nested opts) (query.leafSetting opts graphId index) isTag
  unfold compileLeaf
  simp only [result_bind, returns_bind]
  apply (ensured.attach.and_returns named).returns.imp
  rintro ⟨level, plan⟩ ⟨⟨compiled, sound⟩, levelNamed⟩
  dsimp only
  have hasLevel : query.HasLeafLevel opts graphId index level := ⟨plan, compiled⟩
  cases known : opts.dialect with
  | sqlite => exact standsFor_hoisted known hasLevel (hasLevel.isLeaf movable known) sound.1 levelNamed
  | postgres => exact standsFor_parenthesized known hasLevel (Statement.lexes_mk (sound.1.lexes_map levelNamed))

theorem SetOperand.combine_standsFor (opts : Options) (graphId : String) (operand : SetOperand)
    (index : Nat) (movable : Movable opts.dialect operand.leaves) :
    Returns (operand.combine opts graphId index).result (Combined.StandsFor opts graphId index operand) := by
  induction operand generalizing index with
  | query query => exact query.compileLeaf_standsFor opts graphId index movable
  | operation op left right orderBy limit offset ofLeft ofRight =>
    simp only [SetOperand.combine, SetOperation.combine, Traced.result_bind, Traced.result_pure,
      returns_bind, returns_ok]
    apply (ofLeft index fun hoisted leaf mem => movable hoisted leaf (mem_append_left _ mem)).imp
    intro first firstStands
    apply (ofRight _ fun hoisted leaf mem => movable hoisted leaf (mem_append_right _ mem)).imp
    intro second secondStands
    apply (orderColumns_isNamedBy left.leftmost.block.projection orderBy).imp
    rintro keys ⟨outputs, named⟩
    refine returns_all fun _ => ?_
    have clauses : Clauses.ofKeys keys
        ((if limit.isSome || offset.isSome then some (Bounds.mk limit offset) else none).bind Bounds.limit)
        ((if limit.isSome || offset.isSome then some (Bounds.mk limit offset) else none).bind
          Bounds.offset) = .ofKeys keys limit offset := by
      cases limit <;> cases offset <;> rfl
    obtain ⟨memberReadable, memberTree⟩ := secondStands.readable.asMember
    obtain ⟨readable, tree⟩ := firstStands.readable.asChain.concat memberReadable outputs op
      (if limit.isSome || offset.isSome then some ⟨limit, offset⟩ else none)
    refine ⟨readable, ?_, ?_⟩
    · change SetOperand.HasTree _ _ _ (Compound.tree opts.dialect opts.schema
        (.mk (first.body.asChain opts.dialect.capabilities.compound).1 _ keys _))
      rw [tree, memberTree, clauses, SetOperand.HasTree, SetOperation.HasTree]
      exact ⟨rfl, firstStands.tree, secondStands.tree, named, rel_map_boundValue limit, rel_map_boundValue offset⟩
    · exact firstStands.serve.append secondStands.serve

theorem SetOperation.checkHoisting_movable (operation : SetOperation) (dialect : Dialect) :
    Returns (operation.checkHoisting dialect) fun _ => Movable dialect operation.leaves := by
  cases dialect with
  | postgres => exact fun hoisted => by contradiction
  | sqlite =>
    change Returns (if operation.hoistingProblems.isEmpty then _ else _) _
    split
    · next none =>
      intro _ leaf mem
      rw [List.isEmpty_iff, hoistingProblems, flatMap_eq_nil_iff] at none
      obtain ⟨index, bound, same⟩ := mem_iff_getElem.mp mem
      have entry : (leaf, index) ∈ operation.leaves.zipIdx := mem_zipIdx_iff_getElem?.mpr (by simp [same, bound])
      exact map_eq_nil_iff.mp (none _ entry)
    · trivial

/-- The statement stands for the set operation. -/
structure CompoundStatement.StandsFor (opts : Options) (graphId : String)
    (operation : SetOperation) (statement : CompoundStatement) : Prop where
  movable : Movable opts.dialect operation.leaves
  readable : statement.body.Readable opts.dialect opts.schema
  tree : operation.HasTree (Query.HasLeafText opts graphId) 0
    (statement.body.tree opts.dialect opts.schema)
  serve : ServeLeaves opts graphId 0 operation.leaves statement.rowSets

theorem SetOperation.statement_standsFor (opts : Options) (graphId : String) (operation : SetOperation) :
    Returns (operation.statement opts graphId).result fun result => result.1.StandsFor opts graphId operation := by
  unfold statement
  simp only [result_bind, result_logged, result_pure, returns_bind, returns_ok]
  refine returns_all fun _ => ?_
  apply (operation.checkHoisting_movable opts.dialect).imp
  intro _ movable
  have made := SetOperand.combine_standsFor opts graphId (.operation operation) 0 movable
  simp only [SetOperand.combine, result_bind, result_pure, returns_bind, returns_ok] at made
  exact made.imp fun _ stands => ⟨movable, stands.readable, stands.tree, stands.serve⟩

theorem SetOperation.exists_statement (operation : SetOperation) {compiled : CompiledQuery}
    (returned : (operation.compile opts graphId).result = .ok compiled) :
    ∃ statement plan, (operation.statement opts graphId).result = .ok (statement, plan) ∧
      compiled = ⟨opts.dialect, statement.print opts.dialect opts.schema, plan⟩ := by
  unfold compile at returned
  rw [result_bind] at returned
  cases stated : (operation.statement opts graphId).result with
  | error error =>
    rw [stated] at returned
    contradiction
  | ok finished =>
    rw [stated] at returned
    exact ⟨finished.1, finished.2, rfl, (Except.ok.inj returned).symm⟩

theorem SetOperand.leaves_ne_nil (operand : SetOperand) : operand.leaves ≠ [] := by
  induction operand with
  | query => exact List.cons_ne_nil _ _
  | operation _ _ _ _ _ _ ofLeft => exact List.append_ne_nil_of_left_ne_nil ofLeft _

theorem CompoundStatement.StandsFor.exists_text {operation : SetOperation}
    {statement : CompoundStatement} (stands : statement.StandsFor opts graphId operation) :
    ∃ rowSets found, text? opts.dialect (textFrom opts.dialect 1 (statement.print opts.dialect
        opts.schema).pieces) = some (rowSets, found) ∧
      found.Alike (IsWritten opts.dialect) (statement.body.tree opts.dialect opts.schema) ∧
      rowSets.map Prod.fst = leafNames opts.dialect 0 operation.leaves := by
  have names := stands.serve.names
  have entries := stands.serve.entries
  have readable := stands.readable
  cases known : opts.dialect with
  | sqlite =>
    rw [known] at names entries readable
    have someRowSet : statement.rowSets ≠ [] := by
      intro none
      rw [none] at names
      have noNames : operation.leaves.zipIdx.map _ = [] := names.symm
      exact (SetOperand.operation operation).leaves_ne_nil (zipIdx_eq_nil_iff.mp (map_eq_nil_iff.mp noNames))
    obtain ⟨rowSets, found, sameNames, alike, read⟩ := statement.reads_hoisted someRowSet entries readable
    exact ⟨rowSets, found, read, alike, sameNames.trans names⟩
  | postgres =>
    rw [known] at names readable
    have noRowSets : statement.rowSets = [] := map_eq_nil_iff.mp names
    obtain ⟨found, alike, read⟩ := statement.reads_enclosed noRowSets readable
    exact ⟨[], found, read, alike, rfl⟩

/-- The lexemes are those of the leaf with the given position. -/
def Query.IsReadAs (opts : Options) (graphId : String) (query : Query) (index : Nat) (lexemes : List Lexeme) : Prop :=
  ∃ fragment, query.HasLeafText opts graphId index fragment ∧ IsWritten opts.dialect lexemes fragment

/-- A compiled set operation is read, by the rules of its engine, as the operation that was given:
each operator has its operands and its clauses, and the row sets of the leaves stand before it, one
for each leaf from left to right, if they do not stand in the leaves. -/
theorem SetOperation.compiled_reads_back (opts : Options) (graphId : String)
    (operation : SetOperation) (compiled : CompiledQuery)
    (returned : (operation.compile opts graphId).result = .ok compiled) :
    ∃ rowSets tree, text? opts.dialect compiled.text.toList = some (rowSets, tree) ∧
      operation.HasTree (Query.IsReadAs opts graphId) 0 tree ∧
      rowSets.map Prod.fst = leafNames opts.dialect 0 operation.leaves := by
  obtain ⟨statement, plan, stated, rfl⟩ := operation.exists_statement returned
  have stands := (operation.statement_standsFor opts graphId).of_ok stated
  obtain ⟨rowSets, found, read, alike, names⟩ := stands.exists_text
  refine ⟨rowSets, found, ?_, ?_, names⟩
  · change text? opts.dialect (Fragment.text opts.dialect _).toList = _
    rw [Fragment.text, String.toList_ofList]
    exact read
  · refine SetOperation.HasTree.alike ?_ alike operation 0 stands.tree
    intro query index lexemes fragment written hasText
    exact ⟨fragment, hasText, written⟩

namespace guestList

/-- The names of all nodes of a kind. -/
def everyone (graphId : Option String) (aliasName kind : String) : SetOperand :=
  .query (.mk { Block.ofKind aliasName kind with
    graphId
    projection := [⟨"name", .field (.ofProperty aliasName "name")⟩] })

/-- The hosts, and the last ten of those who were invited and have not declined, two of all left out.
The replies have a graph of their own. -/
def operation : SetOperation :=
  ⟨.unionAll, everyone none "h" "host",
    .operation ⟨.difference, everyone none "i" "invited", everyone (some "replies") "d" "declined",
      [⟨.ofProperty "i" "name", .descending, some .last⟩], some 10, none⟩, [], none, some 2⟩

theorem operation_compiles : ∃ compiled, (operation.compile {} "party").result = .ok compiled := by
  have widths : result (liftM operation.checkWidths) = .ok () := by
    have one : operation.widths = [1].mergeSort := rfl
    simp [SetOperation.checkWidths, one]
    rfl
  unfold SetOperation.compile SetOperation.statement
  simp only [result_bind, result_logged, widths]
  exact ⟨_, rfl⟩

theorem operation_reads_back :
    ∃ compiled, (operation.compile {} "party").result = .ok compiled ∧
      ∃ rowSets tree, text? .sqlite compiled.text.toList = some (rowSets, tree) ∧
        operation.HasTree (Query.IsReadAs {} "party") 0 tree ∧
        rowSets.map Prod.fst = ["s0_cte_h", "s1_cte_i", "s2_cte_d"] := by
  obtain ⟨compiled, returned⟩ := operation_compiles
  obtain ⟨rowSets, tree, read, hasTree, names⟩ :=
    SetOperation.compiled_reads_back {} "party" operation compiled returned
  exact ⟨compiled, returned, rowSets, tree, read, hasTree, names⟩

end guestList

end GraphSql
