import GraphSql.Proofs.Analysis
import GraphSql.Proofs.Scoping

namespace GraphSql

open Condition List NodeKey Term

variable {element : Element} {admitted : Reference → Prop} {aliasName : String}
variable {placements : List (Option String)} {reach : List Visible} {holds : Statement → Prop}

/-- The nested queries become statements with the property. -/
abbrev Block.NestedEnsures (block : Block Nested) (holds : Statement → Prop) : Prop :=
  ∀ query ∈ block.nested, Ensures query.outcome.result holds

/-- A table as a relation of a FROM clause. -/
def Table.visible (base : Table) : Visible := ⟨base.row, base.columnNames⟩

/-- The table whose rows the elements are. -/
def Element.table : Element → Table
  | .node => .nodes
  | .edge => .edges

/-- Whatever the element has can be read from its row. -/
structure Element.Readable (element : Element) (reads : Reference → Prop) : Prop where
  graph : (graphColumn (.ofElement element)).Reads reads
  column : ∀ column : Column, column.existsOn element = true → (ofColumn element column).Reads reads

/-- Both columns of the key can be read. -/
structure NodeKey.Reads (key : NodeKey) (reads : Reference → Prop) : Prop where
  id : key.id.Reads reads
  kind : key.kind.Reads reads

theorem Element.readable (element : Element) (visible : element.table.visible ∈ reach) :
    element.Readable (Reference.InReach reach) := by
  have mem (column : Column) : column.name ∈ Column.all.map Column.name := mem_map_of_mem column.mem_all
  cases element <;> exact ⟨column_reads visible mem_cons_self, fun column _ =>
    column_reads visible (mem_cons_of_mem _ (mem column))⟩

namespace NodeKey

theorem Reads.mono {key : NodeKey} {wider : List Visible} (included : reach ⊆ wider)
    (inReach : key.Reads (Reference.InReach reach)) : key.Reads (Reference.InReach wider) :=
  ⟨inReach.id.mono included, inReach.kind.mono included⟩

theorem node_reads (nodes : Element.node.Readable admitted) : node.Reads admitted :=
  ⟨nodes.column .id rfl, nodes.column .kind rfl⟩

theorem near_reads (edges : Element.edge.Readable admitted) (direction : Direction) :
    direction.near.Reads admitted := by
  cases direction with
  | outward => exact ⟨edges.column .fromId rfl, edges.column .fromKind rfl⟩
  | inward => exact ⟨edges.column .toId rfl, edges.column .toKind rfl⟩

theorem far_reads (edges : Element.edge.Readable admitted) (direction : Direction) :
    direction.far.Reads admitted := near_reads edges direction.reversed

theorem carried_inReach {row : Row} {columns : List String} (visible : ⟨row, columns⟩ ∈ reach)
    (id : carriedName aliasName .id ∈ columns) (kind : carriedName aliasName .kind ∈ columns) :
    (carried row aliasName).Reads (Reference.InReach reach) :=
  ⟨column_reads visible id, column_reads visible kind⟩

end NodeKey

/-- A property of conditions that follows from what their terms read and from their lists of kinds. -/
structure Judges (reads : Reference → Prop) (fits : List String → Prop) (good : Condition Statement → Prop) : Prop where
  nonempty : ∀ kinds, kinds ≠ [] → fits kinds
  compare {left right : Term} (comparator : Comparator) :
    left.Reads reads → right.Reads reads → good (.compare left comparator right)
  isNull {term : Term} : term.Reads reads → good (.isNull term false)
  kindIs {term : Term} {kinds : List String} : term.Reads reads → fits kinds → good (.kindIs term kinds)
  all {conditions : Conditions} : (∀ condition ∈ conditions, good condition) → good (.all conditions)
  any {conditions : Conditions} : (∀ condition ∈ conditions, good condition) → good (.any conditions)
  notAll {conditions : Conditions} : (∀ condition ∈ conditions, good condition) → good (.notAll conditions)
  equalsCase {term first second : Term} {guard : Condition Statement} : term.Reads reads →
    good guard → first.Reads reads → second.Reads reads → good (.equalsCase term guard first second)

theorem judges_admits (reads : Reference → Prop) (holds : Statement → Prop) :
    Judges reads (fun _ => True) (Condition.Admits reads holds) where
  nonempty _ _ := trivial
  compare comparator left right := admits_compare left right comparator
  isNull reads := admits_isNull reads false
  kindIs reads _ := admits_kindIs reads _
  all := admits_all
  any := admits_any
  notAll := admits_notAll
  equalsCase := admits_equalsCase

namespace Judges

variable {reads : Reference → Prop} {fits : List String → Prop} {good : Condition Statement → Prop}
variable (judges : Judges reads fits good) {start : NodeKey} (hop : Traversal)

include judges

theorem equal {left right : Term} (ofLeft : left.Reads reads) (ofRight : right.Reads reads) :
    good (.equal left right) := judges.compare .equal ofLeft ofRight

theorem same {first second : NodeKey} (ofFirst : first.Reads reads)
    (ofSecond : second.Reads reads) : ∀ condition ∈ first.same second, good condition :=
  forall_mem_pair.mpr ⟨judges.equal ofFirst.id ofSecond.id, judges.equal ofFirst.kind ofSecond.kind⟩

variable (edges : Element.edge.Readable reads)

include edges

theorem leavesFrom (key : start.Reads reads) (direction : Direction) {kinds : List String}
    (fit : fits kinds) : good (Traversal.leavesFrom start direction kinds) :=
  judges.all (forall_mem_cons.mpr
    ⟨judges.kindIs (edges.column .kind rfl) fit, judges.same (near_reads edges direction) key⟩)

theorem edgeConditions (key : start.Reads reads) : ∀ condition ∈ hop.edgeConditions start, good condition := by
  have leaves (direction : Direction) {kinds : List String} (some : ¬ kinds.isEmpty = true) :
      good (Traversal.leavesFrom start direction kinds) :=
    judges.leavesFrom edges key direction (judges.nonempty kinds (by simpa using some))
  unfold Traversal.edgeConditions
  dsimp only
  split
  · exact judges.same (near_reads edges _) key
  · next backward =>
    split
    · exact forall_mem_singleton.mpr (leaves _ backward)
    · next forward =>
      refine forall_mem_singleton.mpr (judges.any (forall_mem_pair.mpr ?_))
      exact ⟨leaves _ forward, leaves _ backward⟩

variable (nodes : Element.node.Readable reads)

include nodes

theorem nodeConditions (key : start.Reads reads) : ∀ condition ∈ hop.nodeConditions start, good condition := by
  have node := node_reads nodes
  have far := far_reads edges hop.direction
  have near := near_reads edges hop.direction
  unfold Traversal.nodeConditions
  dsimp only
  split
  · exact judges.same node far
  · split
    · exact judges.same node near
    · next some =>
      have forward : good (Traversal.leavesFrom start hop.direction hop.edgeKinds) :=
        judges.leavesFrom edges key _ (judges.nonempty _ (by simpa using some))
      exact forall_mem_pair.mpr ⟨judges.equalsCase node.id forward far.id near.id,
        judges.equalsCase node.kind forward far.kind near.kind⟩

theorem kindConditions (fit : hop.inverseEdgeKinds = [] → fits hop.edgeKinds) :
    ∀ condition ∈ hop.kindConditions, good condition := by
  refine forall_mem_append.mpr ⟨?_, ?_⟩
  · split
    · next only =>
      exact forall_mem_singleton.mpr (judges.kindIs (edges.column .kind rfl) (fit (isEmpty_iff.mp only)))
    · simp
  · split
    · simp
    · next some =>
      exact forall_mem_singleton.mpr
        (judges.kindIs (nodes.column .kind rfl) (judges.nonempty _ (by simpa using some)))

omit edges in
theorem startConditions {σ : Type} (block : Block σ) (graphId : String)
    (fit : fits block.start.kinds) : ∀ condition ∈ block.startConditions graphId, good condition :=
  forall_mem_pair.mpr ⟨judges.equal nodes.graph (reads_value _), judges.kindIs (nodes.column .kind rfl) fit⟩

omit edges nodes in
/-- Visibility reads only the row whose visibility it is. -/
theorem visibility (mode : TemporalMode) {now : Option Term} (unread : ∀ moment ∈ now, moment.references = [])
    (column : ∀ column : Column, column.existsOn element = true → (ofColumn element column).Reads reads) :
    ∀ condition ∈ mode.conditions now element, good condition := by
  have present : good (.isNull (.ofColumn element .deletedAt) false) :=
    judges.isNull (column .deletedAt (by cases element <;> rfl))
  have during {wanted : Column} (exist : wanted.existsOn element = true) (comparator : Comparator)
      (moment : Term) (given : now = some moment) :
      good (.any [.isNull (.ofColumn element wanted) false,
        .compare (.ofColumn element wanted) comparator moment]) := by
    have momentReads : moment.Reads reads := by simp [Term.Reads, unread moment given]
    exact judges.any (forall_mem_pair.mpr ⟨judges.isNull (column wanted exist),
      judges.compare comparator (column wanted exist) momentReads⟩)
  have since : Column.validFrom.existsOn element = true := by cases element <;> rfl
  have ending : Column.validTo.existsOn element = true := by cases element <;> rfl
  unfold TemporalMode.conditions
  dsimp only
  split
  · simp
  · simpa using present
  · simpa using present
  · simpa using ⟨present, during since .lessOrEqual _ rfl, during ending .greater _ rfl⟩
  · simpa using ⟨present, during since .lessOrEqual _ rfl, during ending .greater _ rfl⟩

theorem hopConditions {block : Block Nested} {picks : Decisions} (unread : ∀ moment ∈ picks.now, moment.references = [])
    (fit : hop.inverseEdgeKinds = [] → fits hop.edgeKinds) {placed : Conditions}
    (ofPlaced : ∀ condition ∈ placed, good condition) :
    ∀ condition ∈ hop.kindConditions ++ block.hopVisibility picks ++ placed, good condition := by
  simp only [Block.hopVisibility, forall_mem_append]
  exact ⟨⟨judges.kindConditions hop edges nodes fit, judges.visibility block.temporal unread edges.column,
    judges.visibility block.temporal unread nodes.column⟩, ofPlaced⟩

end Judges

theorem Traversal.joins_extend (hop : Traversal) {start : NodeKey} {known : List Declared}
    (graphId : String) (inReach : start.Reads (Reference.InReach reach)) (ordered : Bool) :
    Join.Extend holds known reach (hop.joins graphId start ordered)
      (Table.nodes.visible :: Table.edges.visible :: reach) := by
  refine ⟨_, .table .edges, ?_, _, .table .nodes, ?_, rfl⟩
  · have edges := Element.readable .edge (mem_cons_self : Table.edges.visible ∈ _ :: reach)
    refine forall_mem_cons.mpr ⟨admits_equal edges.graph (reads_value _), ?_⟩
    exact (judges_admits _ _).edgeConditions hop edges (inReach.mono (subset_cons_self _ _))
  · have nodes := Element.readable .node (mem_cons_self : Table.nodes.visible ∈ _ :: Table.edges.visible :: reach)
    have edges : Element.edge.Readable (Reference.InReach (Table.nodes.visible :: Table.edges.visible :: reach)) :=
      Element.readable .edge (by simp [Element.table])
    refine forall_mem_cons.mpr ⟨admits_equal nodes.graph edges.graph, ?_⟩
    refine (judges_admits _ _).nodeConditions hop edges nodes (inReach.mono ?_)
    exact fun visible mem => by simp [mem]

namespace Scope

theorem ofTables_serves {tables : List (String × Element)} {field : Field}
    (mem : tables.find? (·.1 == field.aliasName) = some (field.aliasName, element))
    (reads : ∀ column : Column, column.existsOn element = true → (ofColumn element column).Reads admitted) :
    (ofTables tables).Serves admitted field := by
  intro column _
  simp only [ofTables, mem]
  rw [ensures_bind]
  unfold checkColumn
  split
  · next present => exact reads column present
  · simp

end Scope

variable {hop : Traversal}

namespace Block

variable {block : Block Nested} {picks : Decisions}
variable {σ : Type} {place : Option String} {admitted : Reference → Prop} {predicate : Predicate σ}

section

variable {block : Block σ}

theorem placedAt_placements (place : Option String) : block.placedAt block.placements place =
      (block.filters.filter (block.placement · = place)).map Filter.predicate := by
  unfold placedAt placements
  induction block.filters with
  | nil => rfl
  | cons filter rest ih => by_cases here : block.placement filter = place <;> simp [here, ih]

/-- Whatever a predicate reads that is placed at an owner belongs to this owner. -/
theorem placedAt_spec (placed : predicate ∈ block.placedAt block.placements place) :
    ∃ filter ∈ block.filters, filter.predicate = predicate ∧ block.placement filter = place := by
  rw [placedAt_placements] at placed
  obtain ⟨filter, kept, same⟩ := mem_map.mp placed
  rw [mem_filter, decide_eq_true_eq] at kept
  exact ⟨filter, kept.1, same, kept.2⟩

theorem owner_of_placement {filter : Filter σ} {owner : String} (placed : block.placement filter = some owner) :
    ∀ field ∈ filter.predicate.fields, block.ownerOf field.aliasName = some owner := by
  unfold placement at placed
  dsimp only at placed
  split at placed
  · next all =>
    intro field mem
    have same := all_eq_true.mp all field mem
    rw [beq_iff_eq.mp same, placed]
  · simp at placed

theorem exists_filter_of_mem_placedAt (placed : predicate ∈ block.placedAt placements place) :
    ∃ filter ∈ block.filters, filter.predicate = predicate := by
  obtain ⟨⟨filter, placement⟩, zipped, kept⟩ := mem_filterMap.mp placed
  dsimp only at kept
  split at kept
  · exact ⟨filter, (of_mem_zip zipped).1, Option.some_inj.mp kept⟩
  · simp at kept

theorem nestedOf_placedAt : Predicate.nestedOf (block.placedAt placements place) ⊆ block.nested := by
  intro query member
  rw [Predicate.nestedOf_eq_flatMap] at member
  obtain ⟨predicate, placed, inPredicate⟩ := mem_flatMap.mp member
  obtain ⟨filter, mem, rfl⟩ := exists_filter_of_mem_placedAt placed
  exact mem_append_left _ (mem_flatMap.mpr ⟨filter, mem, inPredicate⟩)

end

theorem lowerPlaced_ensures (dialect : Dialect) {scope : Scope} (placements : picks.placements = block.placements)
    (serves : ∀ predicate ∈ block.placedAt block.placements place, ∀ field ∈ predicate.fields,
      scope.Serves admitted field)
    (nested : block.NestedEnsures holds) :
    Ensures (block.lowerPlaced dialect picks scope place).result fun conditions =>
      ∀ condition ∈ conditions, condition.Admits admitted holds := by
  unfold lowerPlaced
  rw [placements]
  refine Predicate.lowerAll_ensures dialect _ ?_ ?_
  · intro field mem
    rw [Predicate.fieldsOf_eq_flatMap] at mem
    obtain ⟨predicate, placed, inPredicate⟩ := mem_flatMap.mp mem
    exact serves predicate placed field inPredicate
  · exact fun query mem => nested query (nestedOf_placedAt mem)

section

variable {block : Block σ} (bound : block.Bound)

include bound

theorem startScope_serves (nodes : ∀ column : Column, column.existsOn .node = true →
    (ofColumn .node column).Reads admitted) :
    ∀ predicate ∈ block.placedAt block.placements (some block.start.aliasName),
      ∀ field ∈ predicate.fields, block.startScope.Serves admitted field := by
  intro predicate placed field member
  obtain ⟨filter, -, rfl, placement⟩ := placedAt_spec placed
  have name := bound.eq_start (owner_of_placement placement field member)
  have mem : [(block.start.aliasName, Element.node)].find? (·.1 == field.aliasName) =
      some (field.aliasName, .node) := by simp [name]
  exact Scope.ofTables_serves mem nodes

theorem hopScope_serves (member : hop ∈ block.traversals)
    (edges : ∀ column : Column, column.existsOn .edge = true → (ofColumn .edge column).Reads admitted)
    (nodes : ∀ column : Column, column.existsOn .node = true → (ofColumn .node column).Reads admitted) :
    ∀ predicate ∈ block.placedAt block.placements (some hop.nodeAlias),
      ∀ field ∈ predicate.fields, hop.scope.Serves admitted field := by
  intro predicate placed field inPredicate
  obtain ⟨filter, -, rfl, placement⟩ := placedAt_spec placed
  rcases bound.eq_edge_or_node member (owner_of_placement placement field inPredicate) with
    name | name
  · have mem : [(hop.edgeAlias, Element.edge), (hop.nodeAlias, .node)].find?
        (·.1 == field.aliasName) = some (field.aliasName, .edge) := by simp [name]
    exact Scope.ofTables_serves mem edges
  · have mem : [(hop.edgeAlias, Element.edge), (hop.nodeAlias, .node)].find?
        (·.1 == field.aliasName) = some (field.aliasName, .node) := by
      simp [name, bound.edge_ne_node member member]
    exact Scope.ofTables_serves mem nodes

end

/-- A hop under the same names, such as one that follows only some of its kinds, reads the tables of
its edge and its node. -/
theorem hopConditions_ensures (bound : block.Bound) (fit : picks.Fit block)
    (nested : block.NestedEnsures holds) (dialect : Dialect) {variant : Traversal}
    (mem : hop ∈ block.traversals) (edgeAlias : variant.edgeAlias = hop.edgeAlias)
    (nodeAlias : variant.nodeAlias = hop.nodeAlias) (edges : Element.edge.Readable admitted)
    (nodes : Element.node.Readable admitted) :
    Ensures (block.hopConditions dialect picks variant).result fun conditions =>
      ∀ condition ∈ conditions, condition.Admits admitted holds := by
  have scope : variant.scope = hop.scope := by simp [Traversal.scope, edgeAlias, nodeAlias]
  unfold hopConditions
  rw [scope, nodeAlias]
  simp only [Traced.result_bind, Traced.result_pure, ensures_bind]
  apply (lowerPlaced_ensures dialect fit.placements (hopScope_serves bound mem edges.column nodes.column) nested).imp
  intro placed ofPlaced
  exact (judges_admits _ _).hopConditions variant edges nodes fit.now (fun _ => trivial) ofPlaced

theorem tableColumns_inReach (block : Block σ) (picks : Decisions)
    (visible : (block.elementOf aliasName).table.visible ∈ reach) :
    ∀ column ∈ block.tableColumns picks aliasName, column.InReach reach := by
  refine forall_mem_map.mpr fun column _ => ?_
  have mem : column.name ∈ Column.all.map Column.name := mem_map_of_mem column.mem_all
  cases element : block.elementOf aliasName <;> rw [element] at visible <;>
    exact column_reads visible (mem_cons_of_mem _ mem)

theorem names_tableColumns (block : Block σ) (picks : Decisions) (aliasName : String) (reach : List Visible) :
    (block.tableColumns picks aliasName).flatMap (OutputColumn.names reach) =
      (picks.carried aliasName).map (carriedName aliasName) :=
  OutputColumn.names_named _ _ _ reach

end Block

end GraphSql
