import GraphSql.Proofs.Equivalence.OneHop
import GraphSql.Proofs.Lowering.ChainSelect

namespace GraphSql

open Field List Option Output Relations

variable {index : Nat} {projection : Projection} {column : OutputColumn}
variable {projections : List Projection} {term : Term} {ν : Type}

/-- The term reads one row only: a column of it, or a property inside of one. -/
inductive Term.ReadsRow (row : Row) : Term → Prop where
  | column (name : String) : ReadsRow row (.column row name)
  | property (name : String) (pointer : Pointer) (extraction : Extraction) :
      ReadsRow row (.extract (.column row name) pointer extraction)

def OutputColumn.ReadsRow (row : Row) : OutputColumn → Prop
  | .plain term | .named term _ | .quoted term _ => term.ReadsRow row
  | .every other => other = row

section ReadsRow

variable {row : Row}

theorem Term.ReadsRow.isAggregate (reads : term.ReadsRow row) : term.isAggregate = false := by cases reads <;> rfl

theorem OutputColumn.ReadsRow.isAggregate (reads : column.ReadsRow row) : column.isAggregate = false := by
  cases column with
  | plain term | named term name | quoted term name => exact Term.ReadsRow.isAggregate reads
  | every other => rfl

variable [DecidableEq ν] {db : Engine ν} {frame other : Frame ν}

theorem Term.ReadsRow.eval_eq (reads : term.ReadsRow row)
    (same : frame.lookup row = other.lookup row) (group others : Multiset (Frame ν)) :
    term.eval db group frame = term.eval db others other := by
  cases reads <;> simp [Term.eval, Engine.read, same]

/-- What is read from one row is the same in every group that the row belongs to. -/
theorem OutputColumn.ReadsRow.record_eq (reads : column.ReadsRow row)
    (same : frame.lookup row = other.lookup row) (group others : Multiset (Frame ν)) :
    column.record db group frame = column.record db others other := by
  cases column with
  | plain term => cases reads <;> simp [record, Term.eval, Engine.read, same]
  | named term name | quoted term name => simp [record, Term.ReadsRow.eval_eq reads same group others]
  | every read =>
    obtain rfl : read = row := reads
    simp [record, same]

end ReadsRow

section Lookup

variable {relations : Relations} {carried : Carried}

theorem Relations.column_returns {aliasName : String}
    (found : relations.lookup aliasName = .ok carried) (column : Column) :
    Returns (relations.column aliasName column) fun term =>
      ∃ name, term = .column (.relation carried.relation) name := by
  unfold Relations.column
  simp only [found, returns_bind, returns_ok]
  apply returns_all
  intro _
  split
  · exact ⟨_, rfl⟩
  · trivial

theorem Field.read_returns {field : Field} (found : relations.lookup field.aliasName = .ok carried)
    (aggregates : Bool) (extraction : Extraction) :
    Returns (field.read (relations.scope aggregates) extraction) (Term.ReadsRow (.relation carried.relation)) := by
  unfold read
  rw [returns_bind]
  apply returns_all
  intro target
  cases target with
  | whole => trivial
  | column column =>
    apply (column_returns found column).imp
    rintro term ⟨name, same⟩
    rw [same]
    exact .column name
  | property pointer =>
    rw [returns_bind]
    apply (column_returns found .props).imp
    rintro document ⟨name, same⟩
    rw [same]
    exact .property name pointer extraction

namespace Output

variable {output other : Output} {field : Field}

theorem fieldColumns_returns (found : output.relations.lookup field.aliasName = .ok carried)
    (nearest : output.nearest = none) (name : String) :
    Returns (output.fieldColumns name field) fun columns =>
      ∀ column ∈ columns, column.ReadsRow (.relation carried.relation) := by
  have single : Returns (do return [OutputColumn.quoted (← field.readTyped output.scope) name])
      fun columns => ∀ column ∈ columns, column.ReadsRow (.relation carried.relation) := by
    rw [returns_bind]
    apply (read_returns found false _).imp
    intro term reads
    simpa [OutputColumn.ReadsRow] using reads
  unfold fieldColumns
  rw [returns_bind]
  apply returns_all
  intro target
  cases target with
  | whole =>
    simp only [allColumns, found, distanceOf, nearest]
    intro column mem
    simp only [map_nil, append_nil, List.map_map] at mem
    obtain ⟨_, -, rfl⟩ := List.mem_map.mp mem
    exact .column _
  | column _ | property _ => exact single

section

variable (same : output.relations.lookup field.aliasName = other.relations.lookup field.aliasName)

include same

theorem readTyped_congr : field.readTyped output.scope = field.readTyped other.scope := by
  simp [readTyped, Field.read, scope, Relations.scope, Relations.column, same]

/-- The columns of a field depend on what is known of its alias only. -/
theorem fieldColumns_congr (nearest : output.nearest = none) (otherNearest : other.nearest = none)
    (name : String) : output.fieldColumns name field = other.fieldColumns name field := by
  simp [fieldColumns, readTyped_congr same, allColumns, same, distanceOf, nearest, otherNearest]

end

theorem sortKeys_congr {orders : List Order} (same : ∀ order ∈ orders, output.relations.lookup order.field.aliasName =
      other.relations.lookup order.field.aliasName) :
    output.sortKeys orders = other.sortKeys orders := by
  induction orders with
  | nil => rfl
  | cons order rest ih =>
    rw [forall_mem_cons] at same
    have id : output.scope.column order.field.aliasName .id = other.scope.column order.field.aliasName .id := by
      simp [scope, Relations.scope, column, same.1]
    simp [sortKeys, sortKey, readTyped_congr same.1, id, ih same.2]

end Output

theorem Field.resolve_of_denotes {field : Field} {target : Target}
    (denotes : field.denotes target = true) : field.resolve = .ok target := by
  rw [resolve, target_of_denotes denotes]
  rfl

/-- The function that counts all nodes or distinct ones. -/
def AggregateFunction.counting (distinct : Bool) : AggregateFunction := if distinct then .countDistinct else .count

theorem AggregateFunction.counting_beq {function : AggregateFunction}
    (isCount : function.isCount = true) : counting (function == .countDistinct) = function := by
  cases function <;> first | rfl | simp [AggregateFunction.isCount] at isCount

/-- Counting an alias, or its id, counts the ids that are carried for it. -/
theorem Aggregate.lower_count {aggregate : Aggregate} (isCount : aggregate.function.isCount = true)
    (counted : aggregate.field.denotes .whole = true ∨ aggregate.field.denotes (.column .id) = true)
    (found : relations.lookup aggregate.field.aliasName = .ok carried)
    (element : carried.element = .node) (id : .id ∈ carried.columns) :
    aggregate.lower (relations.scope true) = .ok (.aggregate aggregate.function (Relations.term carried .id)) := by
  have column : (relations.scope true).column aggregate.field.aliasName .id = .ok (Relations.term carried .id) :=
    column_of_lookup found (by rw [element]; rfl) id
  have argument : aggregate.argument (relations.scope true) = .ok (term carried .id) := by
    unfold Aggregate.argument
    dsimp only
    rcases counted with whole | ofId
    · rw [resolve_of_denotes whole]
      cases function : aggregate.function <;>
        first | exact column | simp [function, AggregateFunction.isCount] at isCount
    · have read : aggregate.field.read (relations.scope true) .raw = .ok (term carried .id) := by
        rw [Field.read, resolve_of_denotes ofId]
        exact column
      rw [resolve_of_denotes ofId]
      cases function : aggregate.function <;>
        first | exact read | simp [function, AggregateFunction.isCount] at isCount
  have allowed : (relations.scope true).aggregates = true := rfl
  rw [Aggregate.lower, if_pos allowed, argument]
  rfl

end Lookup

namespace Block

/-- Counts are listed in the order of their positions. -/
theorem countColumns_sorted {start node : String} {columns : List (Nat × Bool)}
    (found : countColumns start node index projections = some columns) :
    (∀ entry ∈ columns, index ≤ entry.1 ∧ entry.1 < index + projections.length) ∧ columns.Pairwise (·.1 < ·.1) := by
  induction projections generalizing index columns with
  | nil =>
    obtain rfl := some_inj.mp found
    simp
  | cons projection rest ih =>
    rw [countColumns] at found
    split at found
    · obtain ⟨above, sorted⟩ := ih found
      exact ⟨fun entry mem => by grind [above entry mem], sorted⟩
    · next distinct role =>
      obtain ⟨later, ofRest, rfl⟩ := map_eq_some_iff.mp found
      obtain ⟨above, sorted⟩ := ih ofRest
      refine ⟨forall_mem_cons.mpr ⟨by simp, fun entry mem => by grind [above entry mem]⟩,
        pairwise_cons.mpr ⟨fun entry mem => (above entry mem).1, sorted⟩⟩
    · simp at found

/-- Each projection is of the start, and no count stands for it, or it is counted. -/
theorem countColumns_spec {start node : String} {columns : List (Nat × Bool)}
    (found : countColumns start node index projections = some columns) :
    ∀ entry ∈ projections.zipIdx index, countRole start node entry.1 = .start ∧ (∀ count ∈ columns, count.1 ≠ entry.2) ∨
        ∃ distinct, countRole start node entry.1 = .count distinct ∧ (entry.2, distinct) ∈ columns := by
  induction projections generalizing index columns with
  | nil => simp
  | cons projection rest ih =>
    rw [zipIdx_cons, forall_mem_cons]
    rw [countColumns] at found
    split at found
    · next role =>
      have above := (countColumns_sorted found).1
      exact ⟨.inl ⟨role, fun count mem => Nat.ne_of_gt (above count mem).1⟩, ih found⟩
    · next distinct role =>
      obtain ⟨later, ofRest, rfl⟩ := map_eq_some_iff.mp found
      refine ⟨.inr ⟨distinct, role, mem_cons_self⟩, fun entry mem => ?_⟩
      have after : index < entry.2 := le_snd_of_mem_zipIdx mem
      rcases ih ofRest entry mem with ⟨start, absent⟩ | ⟨other, counted, member⟩
      · exact .inl ⟨start, forall_mem_cons.mpr ⟨Nat.ne_of_lt after, absent⟩⟩
      · exact .inr ⟨other, counted, .tail _ member⟩
    · simp at found

theorem countRole_start {start node : String} (role : countRole start node projection = .start) :
    ∃ target, projection.source = .field target ∧ target.aliasName = start := by
  unfold countRole at role
  split at role
  · next target source =>
    split at role
    · next ofStart => exact ⟨target, source, ofStart⟩
    · simp at role
  · split at role <;> simp at role

theorem countRole_count {start node : String} {distinct : Bool}
    (role : countRole start node projection = .count distinct) :
    ∃ expression, projection.source = .aggregate expression ∧
      expression.function = .counting distinct ∧ expression.function.isCount = true ∧
      expression.field.aliasName = node ∧
      (expression.field.denotes .whole = true ∨ expression.field.denotes (.column .id) = true) := by
  unfold countRole at role
  split at role
  · split at role <;> simp at role
  · next expression source =>
    split at role
    · next counts =>
      simp only [Bool.and_eq_true, beq_iff_eq, Bool.or_eq_true] at counts
      obtain ⟨⟨isCount, ofNode⟩, counted⟩ := counts
      obtain rfl := CountRole.count.inj role
      exact ⟨expression, source, (AggregateFunction.counting_beq isCount).symm, isCount, ofNode, counted⟩
    · simp at role

/-- The nodes of the only hop are counted for each start node. -/
structure Counted (block : Block Nested) (picks : Decisions) (hop : Traversal) (counts : Counts) : Prop where
  one : block.OneHop picks hop
  found : picks.counts = some counts
  nodeAlias : counts.nodeAlias = hop.nodeAlias
  groupBy : block.groupsByStart = true
  having : block.having = none
  inverse : hop.inverseEdgeKinds = []
  placements : picks.placements.all Option.isSome = true
  orderBy : ∀ order ∈ block.orderBy, order.field.aliasName = block.start.aliasName
  columns : countColumns block.start.aliasName hop.nodeAlias 0 block.projection = some counts.columns
  nonempty : counts.columns ≠ []

end Block

/-- The decisions for the statement that groups all rows. -/
def Decisions.withoutCounts (picks : Decisions) : Decisions := { picks with counts := none }

namespace Block

variable {block : Block Nested} {env : Setting} {picks : Decisions} {hop : Traversal}
variable {counts : Counts}

theorem OneHop.withoutCounts (one : block.OneHop picks hop) : block.OneHop picks.withoutCounts hop where
  bound := one.bound
  fit := ⟨one.fit.placements, one.fit.now, one.fit.id, one.fit.kind, one.fit.late, one.fit.vector⟩
  traversals := one.traversals
  vector := one.vector
  collapse := one.collapse

/-- What makes a query one that is computed from counts. -/
theorem counts_applies {σ : Type} {block : Block σ} {placements : List (Option String)}
    {vector : Option VectorSearch} (traversals : block.traversals = [hop])
    (found : block.counts placements vector = some counts) :
    block.groupsByStart = true ∧ block.having = none ∧ hop.inverseEdgeKinds = [] ∧ placements.all Option.isSome = true ∧
      (∀ order ∈ block.orderBy, order.field.aliasName = block.start.aliasName) ∧
      countColumns block.start.aliasName hop.nodeAlias 0 block.projection = some counts.columns ∧
      counts.columns ≠ [] := by
  unfold Block.counts at found
  rw [traversals] at found
  dsimp only at found
  split at found
  · next applies =>
    simp only [Bool.and_eq_true, isNone_iff_eq_none, List.isEmpty_iff, List.all_eq_true, beq_iff_eq] at applies
    obtain ⟨⟨⟨⟨⟨groupBy, having⟩, inverse⟩, -⟩, placed⟩, orderBy⟩ := applies
    split at found
    · simp at found
    · simp at found
    · next columns nonempty mem =>
      obtain rfl := some_inj.mp found
      exact ⟨groupBy, having, inverse, List.all_eq_true.mpr placed, orderBy, mem, nonempty⟩
  · simp at found

theorem counted_of_analyzeChain {opts : Options} {plan : Plan}
    (analyzed : (block.analyzeChain opts).result = .ok (picks, plan))
    (found : picks.counts = some counts) : ∃ hop, block.Counted picks hop counts := by
  obtain ⟨bound, fit, vector, rfl, -⟩ := (block.analyzeChain_ensures opts).of_ok analyzed
  obtain ⟨hop, traversals, nodeAlias, noVector, notCollapsed⟩ := counts_spec found
  obtain ⟨groupBy, having, inverse, placements, orderBy, columns, nonempty⟩ := counts_applies traversals found
  exact ⟨hop, ⟨bound, fit, traversals, noVector, notCollapsed⟩, found, nodeAlias, groupBy,
    having, inverse, placements, orderBy, columns, nonempty⟩

/-- The term that reads the id of the counted node. -/
def countedId (env : Setting) (hop : Traversal) : Term :=
  .column (.relation (env.rowSetName hop.nodeAlias)) (carriedName hop.nodeAlias .id)

/-- A row with counts says what the aggregates make of a group of the same start. -/
structure CountsMatch [DecidableEq ν] (block : Block Nested) (env : Setting)
    (picks : Decisions) (hop : Traversal) (counts : Counts) (db : Engine ν)
    (frame : Frame ν) (group : Multiset (Frame ν)) (other : Frame ν) : Prop where
  start : frame.lookup (.relation (env.rowSetName block.start.aliasName)) =
    other.lookup (.relation (env.rowSetName block.start.aliasName))
  count : ∀ entry ∈ counts.columns, ∀ term ∈ block.countTerm env picks entry.1, term.eval db 0 frame =
      (Term.aggregate (.counting entry.2) (countedId env hop)).eval db group other

/-- A SELECT list with counts gives what another one computes by aggregates. -/
structure CountsAs (block : Block Nested) (env : Setting) (picks : Decisions)
    (hop : Traversal) (counts : Counts) (columns aggregates : List OutputColumn) : Prop where
  plain : ∀ column ∈ columns, column.isAggregate = false
  record_eq : ∀ {ν : Type} [DecidableEq ν] {db : Engine ν} {frame : Frame ν}
    {group : Multiset (Frame ν)} {other : Frame ν},
    block.CountsMatch env picks hop counts db frame group other →
      columns.flatMap (OutputColumn.record db 0 frame) = aggregates.flatMap (OutputColumn.record db group other)

namespace CountsAs

theorem nil : block.CountsAs env picks hop counts [] [] := ⟨by simp, fun _ => rfl⟩

theorem append {columns aggregates others otherAggregates : List OutputColumn}
    (first : block.CountsAs env picks hop counts columns aggregates)
    (second : block.CountsAs env picks hop counts others otherAggregates) :
    block.CountsAs env picks hop counts (columns ++ others) (aggregates ++ otherAggregates) where
  plain column mem := (mem_append.mp mem).elim (first.plain column) (second.plain column)
  record_eq matching := by rw [flatMap_append, flatMap_append, first.record_eq matching, second.record_eq matching]

theorem of_start {columns : List OutputColumn} (reads : ∀ column ∈ columns,
      column.ReadsRow (.relation (env.rowSetName block.start.aliasName))) :
    block.CountsAs env picks hop counts columns columns where
  plain column mem := (reads column mem).isAggregate
  record_eq matching := flatMap_congr fun column mem => (reads column mem).record_eq matching.start _ _

end CountsAs

theorem isAggregate_countTerm (found : block.countTerm env picks index = some term) : term.isAggregate = false := by
  unfold countTerm at found
  split at found
  · simp at found
  · split at found
    · split at found <;> (obtain rfl := some_inj.mp found; rfl)
    · simp at found

namespace Counted

variable (counted : block.Counted picks hop counts)

include counted

theorem countTerm_isSome (env : Setting) {entry : Nat × Bool} (mem : entry ∈ counts.columns) :
    ∃ term, block.countTerm env picks entry.1 = some term := by
  have any : counts.columns.any (·.1 == entry.1) = true := List.any_eq_true.mpr ⟨entry, mem, beq_self_eq_true _⟩
  simp only [countTerm, counted.found, any, if_true]
  split <;> exact ⟨_, rfl⟩

theorem countTerm_eq_none (absent : ∀ entry ∈ counts.columns, entry.1 ≠ index) :
    block.countTerm env picks index = none := by
  have any : counts.columns.any (·.1 == index) = false := by simpa using absent
  simp [countTerm, counted.found, any]

theorem lookup_start : (block.chainOutput env picks).relations.lookup block.start.aliasName =
      (block.chainOutput env picks.withoutCounts).relations.lookup block.start.aliasName := by
  have plain : (block.relations env picks.withoutCounts).lookup block.start.aliasName =
      .ok ⟨block.start.aliasName, env.rowSetName block.start.aliasName, .node, picks.carried block.start.aliasName⟩ :=
    counted.one.withoutCounts.lookup_start_uncounted rfl
  exact (counted.one.lookup_start_counted counted.found counted.nodeAlias).trans plain.symm

theorem nearest_eq_none (env : Setting) : (block.chainOutput env picks).nearest = none := by
  simp [chainOutput, counted.one.vector]

/-- A column of the start is the same with counts and without them. -/
theorem startColumns_agree {target : Field} (source : projection.source = .field target)
    (ofStart : target.aliasName = block.start.aliasName)
    (absent : ∀ entry ∈ counts.columns, entry.1 ≠ index) :
    Agree (block.CountsAs env picks hop counts) ((block.chainOutput env picks).projectionColumns index projection)
      ((block.chainOutput env picks.withoutCounts).projectionColumns index projection) := by
  have computed : (block.chainOutput env picks).computed index = none := counted.countTerm_eq_none absent
  have uncounted : (block.chainOutput env picks.withoutCounts).computed index = none := rfl
  have found : (block.chainOutput env picks).relations.lookup target.aliasName =
      .ok ⟨block.start.aliasName, env.rowSetName block.start.aliasName, .node,
        picks.carried block.start.aliasName⟩ := by
    rw [ofStart]
    exact counted.one.lookup_start_counted counted.found counted.nodeAlias
  have same : (block.chainOutput env picks).relations.lookup target.aliasName =
      (block.chainOutput env picks.withoutCounts).relations.lookup target.aliasName := by
    rw [ofStart]
    exact counted.lookup_start
  have columns := fieldColumns_congr same (counted.nearest_eq_none env) (counted.nearest_eq_none env) projection.name
  simp only [projectionColumns, computed, uncounted, source, ← columns]
  apply agree_self
  apply (fieldColumns_returns found (counted.nearest_eq_none env) projection.name).imp
  intro columns reads
  exact .of_start reads

/-- A count stands for the aggregate at its position. -/
theorem countColumn_agree {distinct : Bool}
    (role : countRole block.start.aliasName hop.nodeAlias projection = .count distinct)
    (mem : (index, distinct) ∈ counts.columns) :
    Agree (block.CountsAs env picks hop counts) ((block.chainOutput env picks).projectionColumns index projection)
      ((block.chainOutput env picks.withoutCounts).projectionColumns index projection) := by
  obtain ⟨expression, source, function, isCount, ofNode, denotes⟩ := countRole_count role
  obtain ⟨term, computed⟩ := counted.countTerm_isSome env mem
  have uncounted : (block.chainOutput env picks.withoutCounts).computed index = none := rfl
  have found : (block.relations env picks.withoutCounts).lookup expression.field.aliasName =
      .ok ⟨hop.nodeAlias, env.rowSetName hop.nodeAlias, .node, picks.carried hop.nodeAlias⟩ := by
    rw [ofNode]
    exact counted.one.withoutCounts.lookup_node rfl
  have lowered : expression.lower (block.chainOutput env picks.withoutCounts).aggregateScope =
        .ok (.aggregate expression.function (countedId env hop)) :=
    Aggregate.lower_count isCount denotes found rfl (counted.one.fit.id _)
  have computed' : (block.chainOutput env picks).computed index = some term := computed
  simp only [projectionColumns, computed', uncounted, source, lowered]
  refine ⟨?_, ?_⟩
  · simpa [OutputColumn.isAggregate] using isAggregate_countTerm computed
  · intro ν _ db frame group other matching
    have value := matching.count _ mem term computed
    rw [← function] at value
    simp [OutputColumn.record, value]

theorem projection_ne_nil : block.projection ≠ [] := by
  intro empty
  have none := counted.columns
  rw [empty] at none
  exact counted.nonempty (some_inj.mp none).symm

theorem columns_agree : Agree (block.CountsAs env picks hop counts) ((block.chainOutput env picks).columns block)
      ((block.chainOutput env picks.withoutCounts).columns block) := by
  rw [columns_of_projection _ counted.projection_ne_nil,
    columns_of_projection _ counted.projection_ne_nil, projectionsFrom_eq, projectionsFrom_eq]
  have each : ∀ entry ∈ block.projection.zipIdx, Agree (block.CountsAs env picks hop counts)
      ((block.chainOutput env picks).projectionColumns entry.2 entry.1)
      ((block.chainOutput env picks.withoutCounts).projectionColumns entry.2 entry.1) := by
    intro entry mem
    rcases countColumns_spec counted.columns entry mem with ⟨role, absent⟩ | ⟨distinct, role, count⟩
    · obtain ⟨target, source, ofStart⟩ := countRole_start role
      exact counted.startColumns_agree source ofStart absent
    · exact counted.countColumn_agree role count
  apply (sequential_agree.mapM each).bind
  intro lists others alike
  induction alike with
  | nil => exact CountsAs.nil
  | cons first rest ih => exact first.append ih

theorem lowerPlaced_none (dialect : Dialect) (scope : Scope) :
    (block.lowerPlaced dialect picks scope none).result = .ok [] := by
  have nothing : block.placedAt picks.placements none = [] := by
    refine filterMap_eq_nil_iff.mpr ?_
    rintro ⟨filter, placement⟩ mem
    have isSome := List.all_eq_true.mp counted.placements placement (of_mem_zip mem).2
    cases placement with
    | none => cases isSome
    | some owner => simp
  rw [lowerPlaced, nothing]
  rfl

theorem groupBy_eq : (block.chainOutput env picks.withoutCounts).groupBy block.groupBy =
      .ok [(NodeKey.carried (.relation (env.rowSetName block.start.aliasName)) block.start.aliasName).id] := by
  have groups := counted.groupBy
  unfold groupsByStart at groups
  split at groups
  · next field single =>
    simp only [Bool.and_eq_true, beq_iff_eq] at groups
    obtain ⟨ofStart, denotes⟩ := groups
    have found : (block.relations env picks.withoutCounts).lookup field.aliasName =
        .ok ⟨block.start.aliasName, env.rowSetName block.start.aliasName, .node,
          picks.carried block.start.aliasName⟩ := by
      rw [ofStart]
      exact counted.one.withoutCounts.lookup_start_uncounted rfl
    have column : (block.chainOutput env picks.withoutCounts).scope.column field.aliasName
        .id = .ok _ := column_of_lookup found rfl (counted.one.fit.id _)
    rw [single]
    simp only [Output.groupBy, Output.groupKeys, readTyped, Field.read,
      resolve_of_denotes denotes, bind, Except.bind, column]
    rfl
  · simp at groups

theorem orderBy_eq : (block.chainOutput env picks).orderBy block.orderBy =
      (block.chainOutput env picks.withoutCounts).orderBy block.orderBy := by
  have keys : (block.chainOutput env picks).sortKeys block.orderBy =
      (block.chainOutput env picks.withoutCounts).sortKeys block.orderBy := by
    apply sortKeys_congr
    intro order mem
    rw [counted.orderBy order mem]
    exact counted.lookup_start
  have nearest := counted.nearest_eq_none env
  have otherNearest : (block.chainOutput env picks.withoutCounts).nearest = none := nearest
  simp [Output.orderBy, nearest, otherNearest, keys]

end Counted

section

variable (block : Block Nested) (env : Setting) (picks : Decisions)

/-- The final SELECT of a chain that leaves no predicate for it. -/
def finalSelect (columns : List OutputColumn) (groupBy : List Term) (orderBy : List SortKey) : Select Statement where
  columns
  source := .relation (env.rowSetName block.start.aliasName) none
  joins := block.traversals.map (rowSetJoin env picks)
  groupBy
  orderBy

/-- The key of the start in the rows in reach of the final SELECT. -/
def startKey : NodeKey := .carried (.relation (env.rowSetName block.start.aliasName)) block.start.aliasName

/-- The final SELECT that groups all rows by the id of the start. -/
def groupedSelect (columns : List OutputColumn) (orderBy : List SortKey) : Select Statement :=
  block.finalSelect env picks.withoutCounts columns [(block.startKey env).id] orderBy

/-- The two final SELECTs of a counted query: one reads counts, and the other one groups. -/
def FinalAgree (hop : Traversal) (counts : Counts) (select grouped : Select Statement) : Prop :=
  ∃ columns aggregates orderBy, block.CountsAs env picks hop counts columns aggregates ∧
    select = block.finalSelect env picks columns [] orderBy ∧
    grouped = block.groupedSelect env picks aggregates orderBy

end

theorem Counted.chainSelect_agree (counted : block.Counted picks hop counts)
    (limit : block.limit = none) (offset : block.offset = none) :
    Agree (block.FinalAgree env picks hop counts) (block.chainSelect env picks).result
      (block.chainSelect env picks.withoutCounts).result := by
  have nearest := counted.nearest_eq_none env
  have otherNearest : (block.chainOutput env picks.withoutCounts).nearest = none := nearest
  have grouped : picks.counts.isNone = false := by rw [counted.found]; rfl
  have ungrouped : picks.withoutCounts.counts.isNone = true := rfl
  have collapse := counted.one.collapse
  have otherCollapse : picks.withoutCounts.collapse = false := collapse
  have conditions (scope : Scope) : (block.lowerPlaced env.opts.dialect
      picks.withoutCounts scope none).result = .ok [] := counted.lowerPlaced_none _ scope
  have having (output : Output) : (output.having env.opts.dialect block.having).result = .ok none := by
    rw [counted.having]
    rfl
  have ok_bind {α β : Type} (value : α) (next : α → Attempt β) : (Except.ok value >>= next) = next value := rfl
  rw [result_chainSelect, result_chainSelect]
  apply counted.columns_agree.bind
  intro columns aggregates countsAs
  simp only [counted.lowerPlaced_none, conditions, grouped, ungrouped, counted.groupBy_eq, having,
    counted.orderBy_eq, bounds_eq_none nearest limit offset,
    bounds_eq_none otherNearest limit offset, collapse, otherCollapse, ok_bind,
    pure_bind, Bool.false_eq_true, if_false, if_true]
  apply agree_bind_same
  intro orderBy
  exact ⟨columns, aggregates, orderBy, countsAs, rfl, rfl⟩

end Block

end GraphSql
