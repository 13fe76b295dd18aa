import GraphSql.Proofs.Compounds.Members

namespace GraphSql

open List Traced

variable {σ : Type}

/-- The SELECT list outputs this many columns, whatever is in reach. -/
def HasWidth (columns : List OutputColumn) (width : Nat) : Prop :=
  ∀ reach, (columns.flatMap (OutputColumn.names reach)).length = width

/-- The projection is one column. A whole alias has many. -/
def Projection.IsSingle (projection : Projection) : Prop :=
  ∀ field, projection.source = .field field → field.target ≠ .ok .whole

/-- Each projection of the query is one column, and no walk adds its depth or its path to them. -/
structure Block.ProjectsColumns (block : Block σ) : Prop where
  listed : block.projection ≠ []
  single : ∀ projection ∈ block.projection, projection.IsSingle
  silent : ∀ hop ∈ block.traversals, Block.walkAliases hop = []

namespace Output

variable (output : Output)

theorem projectionColumns_single (index : Nat) {projection : Projection} (single : projection.IsSingle) :
    Returns (output.projectionColumns index projection) fun columns =>
      ∃ term, columns = [.quoted term projection.name] := by
  unfold projectionColumns
  cases output.computed index with
  | some term => exact ⟨term, rfl⟩
  | none =>
    cases source : projection.source with
    | aggregate expression =>
      simp only [returns_bind, returns_pure]
      exact returns_all fun term => ⟨term, rfl⟩
    | field field =>
      simp only [fieldColumns, Field.resolve]
      cases found : field.target with
      | error fault => trivial
      | ok target =>
        cases target with
        | whole => exact absurd found (single field source)
        | column _ | property _ =>
          change Returns (field.readTyped output.scope >>= _) _
          rw [returns_bind]
          exact returns_all fun term => ⟨term, rfl⟩

theorem projectionsFrom_width {projections : List Projection}
    (single : ∀ projection ∈ projections, projection.IsSingle) (index : Nat) :
    Returns (output.projectionsFrom index projections) (HasWidth · projections.length) := by
  induction projections generalizing index with
  | nil => exact fun _ => rfl
  | cons projection rest ih =>
    rw [forall_mem_cons] at single
    simp only [projectionsFrom, returns_bind, returns_pure]
    apply (output.projectionColumns_single index single.1).imp
    rintro _ ⟨term, rfl⟩
    apply (ih single.2 (index + 1)).imp
    intro others ofRest reach
    exact congrArg (· + 1) (ofRest reach)

theorem columns_width {block : Block σ} (projects : block.ProjectsColumns) :
    Returns (output.columns block) (HasWidth · block.projection.length) := by
  rw [columns_of_projection _ projects.listed]
  exact output.projectionsFrom_width projects.single 0

end Output

namespace Block

variable {block : Block Nested} {env : Setting} {picks : Decisions}

/-- A query has as many columns as projections, if each of them is one column. -/
theorem compile_width (projects : block.ProjectsColumns) : Returns (block.compile env).result fun compiled =>
      HasWidth compiled.1.select.columns block.projection.length := by
  refine compile_columns (fun output _ => output.columns_width projects) fun walk found listed columns wide => ?_
  have unnamed := projects.silent walk.hop listed
  rw [walkAliases, (walk_spec found).2.1, append_eq_nil_iff] at unnamed
  simpa [Walk.trailOutputs, unnamed] using wide

end Block

namespace SetOperation

theorem checkWidths_returns (operation : SetOperation) : Returns operation.checkWidths fun _ =>
      ∃ width, ∀ leaf ∈ operation.leaves, leaf.block.projection ≠ [] → leaf.block.projection.length = width := by
  unfold checkWidths
  dsimp only
  split
  · trivial
  · next few =>
    have counted : ∀ leaf ∈ operation.leaves, leaf.block.projection ≠ [] →
        leaf.block.projection.length ∈ operation.widths := by
      intro leaf mem listed
      simp only [widths, mem_mergeSort, mem_eraseDups, mem_filter, mem_map, decide_eq_true_eq]
      exact ⟨⟨leaf, mem, rfl⟩, length_pos_iff.mpr listed⟩
    cases found : operation.widths with
    | nil =>
      refine ⟨0, fun leaf mem listed => ?_⟩
      simpa [found] using counted leaf mem listed
    | cons width others =>
      obtain rfl : others = [] := by simpa [found] using few
      refine ⟨width, fun leaf mem listed => ?_⟩
      simpa [found] using counted leaf mem listed

theorem statement_widths (opts : Options) (graphId : String) (operation : SetOperation) :
    Returns (operation.statement opts graphId).result fun _ =>
      ∃ width, ∀ leaf ∈ operation.leaves, leaf.block.projection ≠ [] → leaf.block.projection.length = width := by
  unfold statement
  simp only [result_bind, result_logged, returns_bind, returns_ok]
  apply operation.checkWidths_returns.imp
  intro _ same
  exact returns_all fun _ => returns_all fun _ => same

/-- The leaves of a compiled set operation have equally many columns, as far as each of their
projections is one column and no walk adds its depth or its path. -/
theorem leaves_have_one_width (opts : Options) (graphId : String) (operation : SetOperation)
    (statement : CompoundStatement) (plan : Plan)
    (stated : (operation.statement opts graphId).result = .ok (statement, plan)) :
    ∃ width, List.Forall₂ (fun leaf level =>
        leaf.block.ProjectsColumns → HasWidth level.select.columns width)
      operation.leaves statement.body.levels := by
  obtain ⟨width, same⟩ := (operation.statement_widths opts graphId).of_ok stated
  obtain ⟨levels, each, body, -⟩ := (operation.statement_levels opts graphId).of_ok stated
  refine ⟨width, ?_⟩
  rw [body, List.forall₂_map_right_iff, ← List.zipIdx_map_fst 0 operation.leaves,
    List.forall₂_map_left_iff]
  refine List.forall₂_iff_zip.mpr ⟨each.length_eq, fun {leaf level} paired projects => ?_⟩
  obtain ⟨_, compiled⟩ := List.forall₂_zip each paired
  have inLeaves : leaf.1 ∈ operation.leaves := by
    have indexed := (List.of_mem_zip paired).1
    rw [← List.zipIdx_map_fst 0 operation.leaves]
    exact List.mem_map_of_mem indexed
  have ofBlock : (leaf.1.nested opts).ProjectsColumns := ⟨projects.listed, projects.single, projects.silent⟩
  rw [Level.select_inCompound, ← same leaf.1 inLeaves projects.listed]
  exact (Block.compile_width ofBlock).of_ok compiled

end SetOperation

theorem guestList.operation_has_one_width :
    (∀ leaf ∈ operation.leaves, leaf.block.ProjectsColumns) ∧
      ∃ statement plan width, (operation.statement {} "party").result = .ok (statement, plan) ∧
        List.Forall₂ (fun _ level => HasWidth level.select.columns width)
          operation.leaves statement.body.levels := by
  have projects : ∀ leaf ∈ operation.leaves, leaf.block.ProjectsColumns := by
    have each (graphId : Option String) (aliasName kind : String) :
        ∀ leaf ∈ (everyone graphId aliasName kind).leaves, leaf.block.ProjectsColumns := by
      intro leaf mem
      rw [everyone, SetOperand.leaves] at mem
      obtain rfl := List.mem_singleton.mp mem
      refine ⟨List.cons_ne_nil _ _, fun projection listed field source whole => ?_,
        List.forall_mem_nil _⟩
      obtain rfl := List.mem_singleton.mp listed
      cases source
      cases whole
    simp only [operation, SetOperation.leaves, SetOperand.leaves, List.forall_mem_append]
    exact ⟨each _ _ _, each _ _ _, each _ _ _⟩
  obtain ⟨compiled, returned⟩ := operation_compiles
  obtain ⟨statement, plan, stated, -⟩ := operation.exists_statement returned
  obtain ⟨width, widths⟩ := SetOperation.leaves_have_one_width {} "party" operation statement plan stated
  refine ⟨projects, statement, plan, width, stated, ?_⟩
  refine List.forall₂_iff_zip.mpr ⟨widths.length_eq, fun {leaf level} paired => ?_⟩
  exact List.forall₂_zip widths paired (projects leaf (List.of_mem_zip paired).1)

/-- All that is known of persons, and the ids of companies. -/
def mixedUnion : SetOperation :=
  ⟨.union, .query (.mk { Block.ofKind "p" "person" with
      projection := [⟨"found", .field (.ofAlias "p")⟩] }),
    .query (.mk { Block.ofKind "c" "company" with
      projection := [⟨"found", .field (.ofColumn "c" "id")⟩] }), [], none, none⟩

theorem mixedUnion_widths_differ :
    ∃ statement plan, (mixedUnion.statement {} "people").result = .ok (statement, plan) ∧
      ¬ ∃ width, ∀ level ∈ statement.body.levels, HasWidth level.select.columns width := by
  have widths : Traced.result (liftM mixedUnion.checkWidths) = .ok () := by
    have one : mixedUnion.widths = [1].mergeSort := rfl
    simp [SetOperation.checkWidths, one]
    rfl
  unfold SetOperation.statement
  simp only [Traced.result_bind, Traced.result_logged, widths]
  refine ⟨_, _, rfl, ?_⟩
  rintro ⟨width, same⟩
  have ofPersons : 9 = width := same _ List.mem_cons_self []
  have ofCompanies : 1 = width := same _ (List.mem_cons_of_mem _ List.mem_cons_self) []
  omega

open Reader

variable {opts : Options} {graphId : String} {α : Type}

theorem Output.projectionsFrom_names (output : Output) {projection : Projection}
    (single : projection.IsSingle) {projections : List Projection}
    (listed : projection ∈ projections) (index : Nat) :
    Returns (output.projectionsFrom index projections) fun columns =>
      ∃ term, .quoted term projection.name ∈ columns := by
  induction projections generalizing index with
  | nil => cases listed
  | cons first rest ih =>
    simp only [projectionsFrom, returns_bind, returns_pure]
    rcases mem_cons.mp listed with rfl | later
    · apply (output.projectionColumns_single index single).imp
      rintro _ ⟨term, rfl⟩
      exact returns_all fun _ => ⟨term, mem_cons_self⟩
    · refine returns_all fun _ => (ih later _).imp ?_
      rintro _ ⟨term, mem⟩
      exact ⟨term, mem_append_right _ mem⟩

/-- A projection of one column is in the SELECT list under its name. -/
theorem Block.compile_names {block : Block Nested} {env : Setting} {projection : Projection}
    (listed : projection ∈ block.projection) (single : projection.IsSingle) :
    Returns (block.compile env).result fun compiled =>
      ∃ term, .quoted term projection.name ∈ compiled.1.select.columns := by
  have trail (walk : Walk) (columns : List OutputColumn) (named : ∃ term, .quoted term projection.name ∈ columns) :
      ∃ term, .quoted term projection.name ∈ columns ++ walk.trailOutputs :=
    named.imp fun _ mem => mem_append_left _ mem
  refine compile_columns (fun output _ => ?_) fun walk _ _ => trail walk
  rw [Output.columns_of_projection _ (ne_nil_of_mem listed)]
  exact output.projectionsFrom_names single listed 0

/-- The leaf with the given position is compiled. -/
def Query.IsCompiled (opts : Options) (graphId : String) (query : Query) (index : Nat) : Prop :=
  ∃ level, query.HasLeafLevel opts graphId index level

/-- The leaf with the given position has an output column of this name. -/
def Query.HasColumn (opts : Options) (graphId : String) (query : Query) (index : Nat) (name : String) : Prop :=
  ∃ level, query.HasLeafLevel opts graphId index level ∧ ∃ term, .quoted term name ∈ level.select.columns

mutual

/-- At each node of the tree, the keys are columns of the first leaf, apart from orders by a whole
alias. -/
def SetOperand.OrdersByColumns (opts : Options) (graphId : String) (index : Nat) : SetOperand → SetTree α → Prop
  | .query _, _ => True
  | .operation operation, tree => SetOperation.OrdersByColumns opts graphId index operation tree

def SetOperation.OrdersByColumns (opts : Options) (graphId : String) (index : Nat) : SetOperation → SetTree α → Prop
  | _, .leaf _ => False
  | ⟨_, left, right, orderBy, _, _⟩, .node _ first second clauses =>
      List.Forall₂ (fun order output => order.field.target ≠ .ok .whole →
          left.leftmost.HasColumn opts graphId index output.name) orderBy clauses.order ∧
        SetOperand.OrdersByColumns opts graphId index left first ∧
        SetOperand.OrdersByColumns opts graphId (index + left.leaves.length) right second

end

theorem SetOperand.HasTree.ordersByColumns (operand : SetOperand) (index : Nat) (tree : SetTree α)
    (has : operand.HasTree (fun query index _ => query.IsCompiled opts graphId index) index tree) :
    operand.OrdersByColumns opts graphId index tree ∧ operand.leftmost.IsCompiled opts graphId index := by
  induction operand generalizing index tree with
  | query query =>
    cases tree with
    | leaf label => exact ⟨trivial, has⟩
    | node => exact has.elim
  | operation op left right orderBy limit offset ofLeft ofRight =>
    cases tree with
    | leaf label => exact has.elim
    | node found first second clauses =>
      obtain ⟨-, ofFirst, ofSecond, orders, -⟩ := has
      obtain ⟨keysLeft, level, compiled⟩ := ofLeft _ first ofFirst
      obtain ⟨keysRight, -⟩ := ofRight _ second ofSecond
      refine ⟨⟨orders.imp fun order output named part => ?_, keysLeft, keysRight⟩, level, compiled⟩
      obtain ⟨projection, listed, name, target, source, -, same⟩ := named.field
      have single : projection.IsSingle := by
        intro field isField whole
        cases source.symm.trans isField
        exact part (same ▸ whole)
      obtain ⟨plan, made⟩ := compiled
      exact ⟨level, ⟨plan, made⟩, name ▸ (Block.compile_names listed single).of_ok made⟩

/-- A compiled set operation is read as a tree that orders by columns of its first leaf at each level,
apart from orders by a whole alias. -/
theorem SetOperation.compiled_orders_by_columns (opts : Options) (graphId : String)
    (operation : SetOperation) (compiled : CompiledQuery)
    (returned : (operation.compile opts graphId).result = .ok compiled) :
    ∃ rowSets tree, text? opts.dialect compiled.text.toList = some (rowSets, tree) ∧
      operation.OrdersByColumns opts graphId 0 tree := by
  obtain ⟨statement, plan, stated, rfl⟩ := operation.exists_statement returned
  have stands := (operation.statement_standsFor opts graphId).of_ok stated
  obtain ⟨rowSets, found, read, alike, -⟩ := stands.exists_text
  refine ⟨rowSets, found, ?_, (SetOperand.HasTree.ordersByColumns (.operation operation) 0 found ?_).1⟩
  · change text? opts.dialect (Fragment.text opts.dialect _).toList = _
    rw [Fragment.text, String.toList_ofList]
    exact read
  · refine SetOperation.HasTree.alike ?_ alike operation 0 stands.tree
    rintro query index lexemes fragment - ⟨level, compiled, -⟩
    exact ⟨level, compiled⟩

theorem guestList.operation_orders_by_columns :
    ∃ compiled, (operation.compile {} "party").result = .ok compiled ∧
      ∃ rowSets tree, text? .sqlite compiled.text.toList = some (rowSets, tree) ∧
        operation.OrdersByColumns {} "party" 0 tree := by
  obtain ⟨compiled, returned⟩ := operation_compiles
  exact ⟨compiled, returned,
    SetOperation.compiled_orders_by_columns {} "party" operation compiled returned⟩

/-- All that is known of persons, twice, ordered by the persons. -/
def orderedUnion : SetOperation :=
  { mixedUnion with right := mixedUnion.left, orderBy := [⟨.ofAlias "p", .ascending, none⟩] }

theorem orderedUnion_orders_by_no_column :
    ∃ statement plan, (orderedUnion.statement {} "people").result = .ok (statement, plan) ∧
      statement.body.orderBy.map SortKey.term = [.output "found"] ∧
      ∀ level ∈ statement.body.levels.head?,
        "found" ∉ level.select.columns.flatMap (OutputColumn.names []) := by
  have widths : Traced.result (liftM orderedUnion.checkWidths) = .ok () := by
    have one : orderedUnion.widths = [1].mergeSort := rfl
    simp [SetOperation.checkWidths, one]
    rfl
  unfold SetOperation.statement
  simp only [Traced.result_bind, Traced.result_logged, widths]
  refine ⟨_, _, rfl, rfl, ?_⟩
  rintro level ⟨⟩
  decide

end GraphSql
