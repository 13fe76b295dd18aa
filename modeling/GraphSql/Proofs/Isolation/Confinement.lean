import GraphSql.Proofs.Lowering.Hop
import GraphSql.Proofs.Semantics.Hop

namespace GraphSql

open Column Condition Context List Term

variable {row : Row} {ν σ τ : Type}

namespace Select

/-- The conditions of joins, each with the rows in reach where it is checked. -/
def joinRequirements : List Row → List (Join σ) → List (List Row × Condition σ)
  | _, [] => []
  | reach, join :: rest =>
      join.conditions.map (reach ++ [join.source.row], ·) ++ joinRequirements (reach ++ [join.source.row]) rest

variable (select : Select σ)

/-- The rows that are in reach after all joins. -/
def reach : List Row := select.source.row :: select.joins.map fun join => join.source.row

/-- The conditions of ON and WHERE, all of which have to hold. -/
def requirements : List (List Row × Condition σ) :=
  joinRequirements [select.source.row] select.joins ++ select.conditions.map (select.reach, ·)

/-- The condition has to hold, and the rows are in reach where it is checked. -/
def Requires (rows : List Row) (condition : Condition σ) : Prop :=
  ∃ reach, (reach, condition) ∈ select.requirements ∧ rows ⊆ reach

/-- The rows of the table of an element are in reach. -/
def Scans (element : Element) : Prop :=
  select.source = .table element.table ∨ ∃ join ∈ select.joins, join.source = .table element.table

/-- The rows of an element belong to the graph, which is checked for themselves or, for nodes,
through the edge. -/
inductive TiesGraph (graphId : String) (select : Select σ) : Element → Prop where
  | direct {element : Element} (tied : select.Requires [.ofElement element]
        (.equal (graphColumn (.ofElement element)) (.text graphId))) :
      TiesGraph graphId select element
  | throughEdge
      (together : select.Requires [.node, .edge] (.equal (graphColumn .node) (graphColumn .edge)))
      (tied : select.Requires [.edge] (.equal (graphColumn .edge) (.text graphId))) :
      TiesGraph graphId select .node

end Select

/-- A condition that only edges of the kinds meet. Each arm of a disjunction has a filter of its
own, and no filter is empty. -/
inductive Condition.RestrictsEdge (kinds : List String) : Condition σ → Prop where
  | kindIs {admitted : List String} (some : admitted ≠ []) (included : admitted ⊆ kinds) :
      RestrictsEdge kinds (Traversal.edgeKindIs admitted)
  | all {first : Condition σ} {rest : List (Condition σ)} (restricts : RestrictsEdge kinds first) :
      RestrictsEdge kinds (.all (first :: rest))
  | any {first second : Condition σ} (ofFirst : RestrictsEdge kinds first)
      (ofSecond : RestrictsEdge kinds second) : RestrictsEdge kinds (.any [first, second])

/-- A SELECT over tables that keeps to the graph of the setting, to the kinds of the query, and to
the rows that are visible to it. The point in time is one for all rows. -/
structure Select.Confined (block : Block τ) (env : Setting) (select : Select σ) : Prop where
  inner : ∀ join ∈ select.joins, join.kind = .inner
  graph : ∀ element, select.Scans element → select.TiesGraph env.graphId element
  edgeKinds : select.Scans .edge → ∃ hop ∈ block.traversals, ∃ condition,
    select.Requires [.edge] condition ∧ condition.RestrictsEdge hop.allKinds
  startKinds : select.source = .table .nodes → block.start.kinds ≠ [] ∧
    select.Requires [.node] (.kindIs (.ofColumn .node .kind) block.start.kinds)
  visible : ∀ element, select.Scans element →
    ∀ condition ∈ block.temporal.conditions (block.temporal.now env.opts) element,
      select.Requires [.ofElement element] condition

/-- A row is visible: it is not deleted and, at a point in time, its validity has begun and has not
ended. -/
def TemporalMode.Shows [DecidableEq ν] (db : Engine ν) (opts : Options) (mode : TemporalMode)
    (record : Record ν) : Prop :=
  mode ≠ .includeTombstones → db.field record deletedAt.name = db.null ∧ ∀ moment ∈ mode.now opts,
        (db.field record validFrom.name = db.null ∨
          db.compare .lessOrEqual (db.field record validFrom.name) (moment.eval db 0 []) = .yes) ∧
        (db.field record validTo.name = db.null ∨
          db.compare .greater (db.field record validTo.name) (moment.eval db 0 []) = .yes)

/-- What a confined SELECT makes sure of for a row of an element. -/
structure Block.Admits [DecidableEq ν] (block : Block τ) (env : Setting) (db : Engine ν)
    (element : Element) (record : Record ν) : Prop where
  graph : db.field record "graph_id" = db.text env.graphId
  visible : block.temporal.Shows db env.opts record
  edgeKinds : element = .edge → ∃ hop ∈ block.traversals, db.HasKind hop.allKinds record

section Meaning

variable [DecidableEq ν] {world : Context ν σ} {frame : Frame ν} {record : Record ν}

/-- After inner joins, each condition of a join holds of the rows that were in reach when it was
checked. -/
theorem Join.mem_extendAll {joins : List (Join σ)} {frames : Multiset (Frame ν)}
    (inner : ∀ join ∈ joins, join.kind = .inner)
    (member : frame ∈ Join.extendAll world joins frames) :
    ∃ start ∈ frames, start <+: frame ∧
      frame.map Prod.fst = start.map Prod.fst ++ joins.map (fun join => join.source.row) ∧
      ∀ required ∈ Select.joinRequirements (start.map Prod.fst) joins,
        ∃ before, before <+: frame ∧ before.map Prod.fst = required.1 ∧ required.2.truth world 0 before = .yes := by
  induction joins generalizing frames with
  | nil => exact ⟨frame, member, prefix_rfl, by simp, by simp [Select.joinRequirements]⟩
  | cons join rest ih =>
    rw [forall_mem_cons] at inner
    obtain ⟨middle, inMiddle, before, rows, required⟩ := ih inner.2 member
    obtain ⟨start, inStart, extended⟩ := Multiset.mem_bind.mp inMiddle
    rw [Join.extend_inner world inner.1] at extended
    obtain ⟨joined, kept, rfl⟩ := Multiset.mem_map.mp extended
    have holds := (Multiset.mem_filter.mp kept).2
    refine ⟨start, inStart, (prefix_append _ _).trans before, by simpa using rows, ?_⟩
    intro requirement mem
    rcases mem_append.mp mem with own | later
    · obtain ⟨condition, ofJoin, rfl⟩ := mem_map.mp own
      exact ⟨_, before, by simp, holds condition ofJoin⟩
    · exact required requirement (by simpa using later)

omit [DecidableEq ν] in
theorem Frame.lookup_of_prefix {before : Frame ν} (earlier : before <+: frame) (inReach : row ∈ before.map Prod.fst) :
    ∃ record, before.lookup row = some record ∧ frame.lookup row = some record := by
  obtain ⟨later, rfl⟩ := earlier
  cases found : before.lookup row with
  | none =>
    rw [lookup_eq_none_iff] at found
    obtain ⟨entry, mem, rfl⟩ := mem_map.mp inReach
    simpa using found entry mem
  | some record => exact ⟨record, rfl, by simp [lookup_append, found]⟩

namespace Select

variable {select : Select σ} {rows : List Row} {condition : Condition σ}

theorem Requires.holds (requires : select.Requires rows condition)
    (inner : ∀ join ∈ select.joins, join.kind = .inner) (member : frame ∈ select.frames world) :
    ∃ before, condition.truth world 0 before = .yes ∧
      ∀ row ∈ rows, ∃ record, before.lookup row = some record ∧ frame.lookup row = some record := by
  obtain ⟨reach, required, included⟩ := requires
  obtain ⟨extended, kept⟩ := Multiset.mem_filter.mp member
  obtain ⟨start, inStart, -, reached, ofJoins⟩ := Join.mem_extendAll inner extended
  obtain ⟨record, -, rfl⟩ := Multiset.mem_map.mp inStart
  rcases mem_append.mp required with inJoins | inWhere
  · obtain ⟨before, earlier, sameRows, holds⟩ := ofJoins _ inJoins
    refine ⟨before, holds, fun row mem => Frame.lookup_of_prefix earlier ?_⟩
    rw [sameRows]
    exact included mem
  · obtain ⟨checked, mem, same⟩ := mem_map.mp inWhere
    obtain ⟨rfl, rfl⟩ := Prod.mk.inj same
    refine ⟨frame, kept checked mem, fun row among => Frame.lookup_of_prefix prefix_rfl ?_⟩
    rw [reached]
    exact included among

theorem Requires.holds_of_lookup (requires : select.Requires [row] condition)
    (inner : ∀ join ∈ select.joins, join.kind = .inner) (mem : frame ∈ select.frames world)
    (found : frame.lookup row = some record) :
    ∃ before, condition.truth world 0 before = .yes ∧ before.lookup row = some record := by
  obtain ⟨before, holds, reached⟩ := requires.holds inner mem
  obtain ⟨other, atBefore, atFrame⟩ := reached row (by simp)
  obtain rfl := Option.some_inj.mp (found.symm.trans atFrame)
  exact ⟨before, holds, atBefore⟩

end Select

theorem Term.eval_graphColumn (db : Engine ν) (found : frame.lookup row = some record) :
    (graphColumn row).eval db 0 frame = db.field record "graph_id" := by
  simp [graphColumn, eval, Engine.read, found]

theorem Condition.truth_inGraph (found : frame.lookup row = some record) (graphId : String) :
    (equal (graphColumn row) (.text graphId) : Condition σ).truth world 0 frame = .yes ↔
      world.db.field record "graph_id" = world.db.text graphId := by
  rw [truth_equal ⟨graphId, eval_text ..⟩, eval_graphColumn _ found, eval_text]

/-- Only edges of the kinds meet a condition that restricts them. -/
theorem Condition.RestrictsEdge.hasKind {kinds : List String} {condition : Condition σ}
    (restricts : condition.RestrictsEdge kinds) (found : frame.lookup .edge = some record)
    (holds : condition.truth world 0 frame = .yes) : world.db.HasKind kinds record := by
  induction restricts with
  | kindIs _ included =>
    obtain ⟨kind, mem, same⟩ := (Traversal.truth_edgeKindIs found _).mp holds
    exact ⟨kind, included mem, same⟩
  | all _ ih => exact ih ((holds_cons.mp (truth_all.mp holds)).1)
  | any _ _ ofFirst ofSecond =>
    simp only [truth_any, mem_cons, not_mem_nil, or_false, exists_eq_or_imp, exists_eq_left] at holds
    exact holds.elim ofFirst ofSecond

section Visible

variable {element : Element} (found : frame.lookup (.ofElement element) = some record)

include found

theorem Condition.truth_columnIsNull (column : Column) :
    (isNull (.ofColumn element column) false : Condition σ).truth world 0 frame = .yes ↔
      world.db.field record column.name = world.db.null := by
  simp [truth, Truth.negateIf, eval_ofColumn world.db element found]

theorem Condition.truth_columnMeets (column : Column) (comparator : Comparator) (moment : Term) :
    (any [.isNull (.ofColumn element column) false,
        .compare (.ofColumn element column) comparator moment] : Condition σ).truth world 0 frame =
        .yes ↔
      world.db.field record column.name = world.db.null ∨
        world.db.compare comparator (world.db.field record column.name) (moment.eval world.db 0 frame) = .yes := by
  simp only [truth_any, mem_cons, not_mem_nil, or_false, exists_eq_or_imp, exists_eq_left, truth_columnIsNull found]
  simp only [truth, eval_ofColumn world.db element found]

end Visible

namespace TemporalMode

variable {mode : TemporalMode} {opts : Options} {moment : Term}

/-- A point in time does not depend on the rows in reach. -/
theorem eval_now (asked : moment ∈ mode.now opts) (db : Engine ν) (frame : Frame ν) :
    moment.eval db 0 frame = moment.eval db 0 [] := by
  have nothing := mode.now_references opts moment asked
  have alike : ReadAlike db id (0 : Multiset (Frame ν)) id id frame [] moment.references := by
    rw [nothing]
    exact ⟨by simp, by simp⟩
  simpa [rename_id] using moment.eval_rename alike

omit [DecidableEq ν] in
/-- Every mode but one asks for rows that are not deleted. -/
theorem notDeleted_mem_conditions (hides : mode ≠ .includeTombstones) (now : Option Term) (element : Element) :
    (.isNull (.ofColumn element .deletedAt) false : Condition σ) ∈ mode.conditions now element := by
  cases mode <;> cases now <;> simp_all [conditions]

/-- A mode with a point in time asks for rows that are valid then. -/
theorem validity_mem_conditions (asked : moment ∈ mode.now opts) (element : Element) :
    (.any [.isNull (.ofColumn element .validFrom) false,
        .compare (.ofColumn element .validFrom) .lessOrEqual moment] : Condition σ) ∈
        mode.conditions (mode.now opts) element ∧
      (.any [.isNull (.ofColumn element .validTo) false,
        .compare (.ofColumn element .validTo) .greater moment] : Condition σ) ∈
        mode.conditions (mode.now opts) element := by
  rw [Option.mem_def.mp asked]
  cases mode with
  | current | asOf => simp [conditions]
  | includeEnded | includeTombstones => simp [now] at asked

/-- The conditions of a mode, each of them checked where the row is in reach, leave rows that are
visible. -/
theorem shows_of_conditions (element : Element)
    (holds : ∀ condition ∈ mode.conditions (mode.now opts) element, ∃ before,
      truth world 0 before condition = .yes ∧ before.lookup (.ofElement element) = some record) :
    mode.Shows world.db opts record := by
  intro hides
  obtain ⟨_, notDeleted, found⟩ := holds _ (notDeleted_mem_conditions hides _ element)
  refine ⟨(truth_columnIsNull found _).mp notDeleted, fun moment asked => ?_⟩
  obtain ⟨hasBegun, hasNotEnded⟩ := validity_mem_conditions (σ := σ) asked element
  obtain ⟨first, begun, inFirst⟩ := holds _ hasBegun
  obtain ⟨second, notEnded, inSecond⟩ := holds _ hasNotEnded
  rw [truth_columnMeets inFirst, eval_now asked] at begun
  rw [truth_columnMeets inSecond, eval_now asked] at notEnded
  exact ⟨begun, notEnded⟩

end TemporalMode

namespace Select

variable {select : Select σ} {element : Element}

theorem TiesGraph.inGraph {graphId : String} (ties : select.TiesGraph graphId element)
    (inner : ∀ join ∈ select.joins, join.kind = .inner) (mem : frame ∈ select.frames world) :
    ∃ record, frame.lookup (.ofElement element) = some record ∧
      world.db.field record "graph_id" = world.db.text graphId := by
  cases ties with
  | direct tied =>
    obtain ⟨before, holds, reached⟩ := tied.holds inner mem
    obtain ⟨record, inBefore, inFrame⟩ := reached (.ofElement element) (by simp)
    exact ⟨record, inFrame, (truth_inGraph inBefore graphId).mp holds⟩
  | throughEdge together tied =>
    obtain ⟨before, holds, reached⟩ := together.holds inner mem
    obtain ⟨node, nodeBefore, nodeAt⟩ := reached .node (by simp)
    obtain ⟨edge, edgeBefore, edgeAt⟩ := reached .edge (by simp)
    obtain ⟨first, edgeTied, edgeFirst⟩ := tied.holds_of_lookup inner mem edgeAt
    have ofEdge := (truth_inGraph edgeFirst graphId).mp edgeTied
    have isText : world.db.IsText ((graphColumn .edge).eval world.db 0 before) := by
      rw [eval_graphColumn _ edgeBefore]
      exact ⟨graphId, ofEdge⟩
    rw [truth_equal isText, eval_graphColumn _ nodeBefore, eval_graphColumn _ edgeBefore, ofEdge] at holds
    exact ⟨node, nodeAt, holds⟩

/-- In a confined SELECT, the row of each element is admitted, whatever other conditions say. -/
theorem Confined.admits {block : Block τ} {env : Setting}
    (confined : select.Confined block env) (member : frame ∈ select.frames world)
    (scans : select.Scans element) :
    ∃ record, frame.lookup (.ofElement element) = some record ∧ block.Admits env world.db element record ∧
      (select.source = .table .nodes → element = .node → world.db.HasKind block.start.kinds record) := by
  have inner := confined.inner
  obtain ⟨record, inFrame, inGraph⟩ := (confined.graph element scans).inGraph inner member
  refine ⟨record, inFrame, ⟨inGraph, ?_, ?_⟩, ?_⟩
  · refine TemporalMode.shows_of_conditions element fun condition asked => ?_
    exact (confined.visible element scans condition asked).holds_of_lookup inner member inFrame
  · rintro rfl
    obtain ⟨hop, mem, condition, required, restricts⟩ := confined.edgeKinds scans
    obtain ⟨before, holds, inBefore⟩ := required.holds_of_lookup inner member inFrame
    exact ⟨hop, mem, restricts.hasKind inBefore holds⟩
  · rintro fromNodes rfl
    obtain ⟨before, holds, inBefore⟩ := (confined.startKinds fromNodes).2.holds_of_lookup inner member inFrame
    obtain ⟨kind, mem, same⟩ := truth_kindIs.mp holds
    rw [eval_ofColumn_node _ inBefore] at same
    exact ⟨kind, mem, same⟩

end Select

end Meaning

end GraphSql
