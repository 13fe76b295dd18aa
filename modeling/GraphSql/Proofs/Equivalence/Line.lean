import GraphSql.Proofs.Equivalence.OneHop

namespace GraphSql

open Function Link List Text Traced

variable {aliasName : String} {rest : List Link} {ν : Type}

/-- What a row carries of one alias. -/
structure Portion (ν : Type) where
  aliasName : String
  columns : List Column
  record : Record ν

namespace Portion

variable {portions : List (Portion ν)} {portion : Portion ν}

/-- No name is carried in both portions. -/
def Apart (first second : Portion ν) : Prop :=
  ∀ column ∈ first.columns, ∀ other ∈ second.columns,
    lowerAscii (carriedName first.aliasName column) ≠ lowerAscii (carriedName second.aliasName other)

/-- The row that carries all portions. -/
def row (db : Engine ν) (portions : List (Portion ν)) : Record ν :=
  portions.flatMap fun portion => db.carry portion.columns portion.aliasName portion.record

variable (db : Engine ν) (apart : portions.Pairwise Apart) (mem : portion ∈ portions)

include apart mem

/-- A row carries the columns of each portion, if no two portions have a name in common. -/
theorem field_row {column : Column} (carried : column ∈ portion.columns) :
    db.field (row db portions) (carriedName portion.aliasName column) = db.field portion.record column.name := by
  induction portions with
  | nil => simp at mem
  | cons first rest ih =>
    obtain ⟨fromFirst, others⟩ := pairwise_cons.mp apart
    rw [row, flatMap_cons]
    rcases mem_cons.mp mem with rfl | later
    · exact Engine.field_carry carried _
    · have foreign : ∀ other ∈ first.columns,
          lowerAscii (carriedName portion.aliasName column) ≠ lowerAscii (carriedName first.aliasName other) :=
        fun other inFirst => (fromFirst portion later other inFirst column carried).symm
      rw [Engine.field_carry_of_ne foreign]
      exact ih others later

theorem carriedKey_row (id : .id ∈ portion.columns) (kind : .kind ∈ portion.columns) :
    db.carriedKey portion.aliasName (row db portions) = db.keyOf portion.record := by
  simp [Engine.carriedKey, field_row db apart mem id, field_row db apart mem kind, Engine.keyOf]

end Portion

/-- A row of a table for each alias. -/
abbrev Assignment (ν : Type) := String → Record ν

/-- Assigns an edge and a node to the aliases of a hop. -/
def Assignment.extend (assignment : Assignment ν) (hop : Traversal) (pair : Record ν × Record ν) : Assignment ν :=
  update (update assignment hop.edgeAlias pair.1) hop.nodeAlias pair.2

variable {assignment : Assignment ν}

namespace Block

section Aliases

variable {σ : Type} {block : Block σ}

/-- The portions of different aliases have no name in common. -/
theorem Apart.portions (names : block.Apart .ignored) {portions : List (Portion ν)}
    (distinct : (portions.map Portion.aliasName).Nodup)
    (bound : ∀ portion ∈ portions, portion.aliasName ∈ block.aliases)
    (present : ∀ portion ∈ portions, ∀ column ∈ portion.columns,
      column.existsOn (block.elementOf portion.aliasName) = true) :
    portions.Pairwise Portion.Apart := by
  have different : portions.Pairwise fun first second => first.aliasName ≠ second.aliasName := pairwise_map.mp distinct
  refine different.imp_of_mem ?_
  intro first second inFirst inSecond apart column carried other otherCarried
  exact names.carriedName_ne (bound first inFirst) (bound second inSecond) apart
    (present first inFirst column carried) (present second inSecond other otherCarried)

/-- The aliases that are bound along links. -/
def aliasesAlong (block : Block σ) (links : List Link) : List String :=
  block.start.aliasName :: links.flatMap fun link => [link.hop.edgeAlias, link.hop.nodeAlias]

/-- The alias of the node that links lead to. -/
def endOf (block : Block σ) (links : List Link) : String :=
  links.foldl (fun _ link => link.hop.nodeAlias) block.start.aliasName

@[simp] theorem endOf_concat (seen : List Link) (link : Link) :
    block.endOf (seen ++ [link]) = link.hop.nodeAlias := by simp [endOf]

theorem aliasesAlong_concat (seen : List Link) (link : Link) : block.aliasesAlong (seen ++ [link]) =
      block.aliasesAlong seen ++ [link.hop.edgeAlias, link.hop.nodeAlias] := by
  simp [aliasesAlong]

theorem endOf_mem (links : List Link) : block.endOf links ∈ block.aliasesAlong links := by
  induction links using reverseRecOn with
  | nil => exact mem_cons_self
  | append_singleton seen link => simp [aliasesAlong_concat]

variable {links : List Link}

theorem node_mem_aliasesAlong {link : Link} (mem : link ∈ links) : link.hop.nodeAlias ∈ block.aliasesAlong links :=
  mem_cons_of_mem _ (mem_flatMap.mpr ⟨link, mem, by simp⟩)

theorem edge_mem_aliasesAlong {link : Link} (mem : link ∈ links) : link.hop.edgeAlias ∈ block.aliasesAlong links :=
  mem_cons_of_mem _ (mem_flatMap.mpr ⟨link, mem, by simp⟩)

theorem aliasesAlong_eq (hops : links.map hop = block.traversals) : block.aliasesAlong links = block.aliases := by
  rw [aliasesAlong, aliases, ← hops, flatMap_map]

theorem aliasesAlong_sublist {seen : List Link} (hops : (seen ++ rest).map hop = block.traversals) :
    (block.aliasesAlong seen).Sublist block.aliases := by
  rw [← aliasesAlong_eq hops]
  exact ((sublist_append_left seen rest).flatMap _).cons_cons _

theorem endOf_eq (hops : links.map hop = block.traversals) : block.endOf links = block.lastAlias := by
  rw [lastAlias, ← hops]
  induction links using reverseRecOn with
  | nil => rfl
  | append_singleton seen link => simp

/-- A line of hops is a line up to each of them, and from each of them. -/
theorem isLinearFrom_append (first : String) (seen rest : List Link) :
    isLinearFrom first ((seen ++ rest).map hop) = (isLinearFrom first (seen.map hop) &&
        isLinearFrom (seen.foldl (fun _ link => link.hop.nodeAlias) first) (rest.map hop)) := by
  induction seen generalizing first with
  | nil => simp [isLinearFrom]
  | cons link later ih =>
    have tail := ih link.hop.nodeAlias
    simp only [cons_append, map_cons, isLinearFrom, foldl_cons, tail, Bool.and_assoc]

/-- In a line of hops, each one starts from the first node or from that of another hop. -/
theorem joinFrom_mem_of_isLinearFrom {first : String} (linear : isLinearFrom first (links.map hop) = true) :
    ∀ link ∈ links, link.hop.joinFrom = first ∨ ∃ other ∈ links, link.hop.joinFrom = other.hop.nodeAlias := by
  induction links generalizing first with
  | nil => simp
  | cons link later ih =>
    simp only [map_cons, isLinearFrom, Bool.and_eq_true, beq_iff_eq] at linear
    intro other mem
    rcases mem_cons.mp mem with rfl | inLater
    · exact .inl linear.1
    · rcases ih linear.2 other inLater with same | ⟨origin, found, same⟩
      · exact .inr ⟨link, mem_cons_self, same⟩
      · exact .inr ⟨origin, mem_cons_of_mem _ found, same⟩

end Aliases

/-- A query whose hops are taken one after another, with decisions that take no shortcut but to
collapse its row sets. -/
structure Line (block : Block Nested) (picks : Decisions) : Prop where
  bound : block.Bound
  names : block.Apart .ignored
  fit : picks.Fit block
  linear : isLinearFrom block.start.aliasName block.traversals = true
  required : ∀ hop ∈ block.traversals, hop.optional = false
  vector : picks.vector = none
  counts : picks.counts = none
  pushdown : picks.pushdown = none
  /-- No alias carries a column that it does not have. -/
  present : ∀ aliasName, ∀ column ∈ picks.carried aliasName, column.existsOn (block.elementOf aliasName) = true

/-- A link that is taken from where others lead to, with aliases of its own. -/
structure Continues (block : Block Nested) (seen : List Link) (link : Link) : Prop where
  mem : link.hop ∈ block.traversals
  joinFrom : link.hop.joinFrom = block.endOf seen
  distinct : (block.aliasesAlong (seen ++ [link])).Nodup
  within : block.aliasesAlong (seen ++ [link]) ⊆ block.aliases
  before : ∀ other ∈ seen, other.hop.joinFrom ∈ block.aliasesAlong seen

section Continues

variable {block : Block Nested} {picks : Decisions} {seen : List Link} {link : Link}

theorem Line.continues (line : block.Line picks)
    (hops : (seen ++ link :: rest).map hop = block.traversals) : block.Continues seen link := by
  have aliases : (block.aliasesAlong (seen ++ [link])).Sublist block.aliases := by
    rw [append_cons] at hops
    exact aliasesAlong_sublist hops
  have linear := line.linear
  rw [← hops, isLinearFrom_append, Bool.and_eq_true, map_cons, isLinearFrom, Bool.and_eq_true, beq_iff_eq] at linear
  refine ⟨?_, linear.2.1, line.bound.nodup_aliases.sublist aliases, aliases.subset, ?_⟩
  · rw [← hops]
    simp
  · intro other mem
    rcases joinFrom_mem_of_isLinearFrom linear.1 other mem with same | ⟨origin, found, same⟩
    · rw [same]
      exact mem_cons_self
    · rw [same]
      exact node_mem_aliasesAlong found

namespace Continues

variable (continues : block.Continues seen link)

include continues

theorem edge_ne_node : link.hop.edgeAlias ≠ link.hop.nodeAlias := by
  have distinct := continues.distinct
  rw [aliasesAlong_concat, nodup_append] at distinct
  simpa using distinct.2.1

theorem ne_edge (mem : aliasName ∈ block.aliasesAlong seen) : aliasName ≠ link.hop.edgeAlias := by
  have distinct := continues.distinct
  rw [aliasesAlong_concat, nodup_append] at distinct
  exact distinct.2.2 aliasName mem _ (by simp)

theorem ne_node (mem : aliasName ∈ block.aliasesAlong seen) : aliasName ≠ link.hop.nodeAlias := by
  have distinct := continues.distinct
  rw [aliasesAlong_concat, nodup_append] at distinct
  exact distinct.2.2 aliasName mem _ (by simp)

variable (assignment : Assignment ν) (pair : Record ν × Record ν)

theorem extend_of_mem (mem : aliasName ∈ block.aliasesAlong seen) :
    assignment.extend link.hop pair aliasName = assignment aliasName := by
  rw [Assignment.extend, update_of_ne (continues.ne_node mem), update_of_ne (continues.ne_edge mem)]

theorem extend_edge : assignment.extend link.hop pair link.hop.edgeAlias = pair.1 := by
  rw [Assignment.extend, update_of_ne continues.edge_ne_node, update_self]

omit continues in
theorem extend_node : assignment.extend link.hop pair link.hop.nodeAlias = pair.2 := by
  rw [Assignment.extend, update_self]

end Continues

end Continues

/-- The hops with the conditions that are placed there. -/
def links (block : Block Nested) (dialect : Dialect) (picks : Decisions) : List Traversal → Attempt (List Link)
  | [] => .ok []
  | hop :: later => do
      let placed ← (block.lowerPlaced dialect picks hop.scope (some hop.nodeAlias)).result
      return ⟨hop, placed⟩ :: (← block.links dialect picks later)

/-- The row sets of links. One that a later hop starts from may be materialized. -/
def linkRowSets (block : Block Nested) (env : Setting) (picks : Decisions) : List Link → List (RowSet Statement)
  | [] => []
  | link :: later =>
      { name := env.rowSetName link.hop.nodeAlias
        materialized := isJoinedLater link.hop (later.map Link.hop) && env.opts.dialect.capabilities.materializes
        members := [block.linkSelect env picks link] } ::
        block.linkRowSets env picks later

/-- The level of a line of hops. -/
def lineLevel (block : Block Nested) (env : Setting) (picks : Decisions)
    (early : Conditions) (links : List Link) (select : Select Statement) :
    Level Statement where
  rowSets :=
    { name := env.rowSetName block.start.aliasName
      members := [block.startSelect env picks early] } ::
      block.linkRowSets env picks links
  select := select

section Lowering

variable {block : Block Nested} {env : Setting} {picks : Decisions}

theorem links_hops (dialect : Dialect) (hops : List Traversal) :
    Returns (block.links dialect picks hops) fun links => links.map Link.hop = hops := by
  induction hops with
  | nil => simp [links]
  | cons hop later ih =>
    simp only [links, returns_bind, returns_pure]
    refine returns_all fun placed => ?_
    apply ih.imp
    intro others ofLater
    rw [map_cons, ofLater]

/-- What is placed at a hop is a matter of its edge and its node. -/
theorem links_ofElement {holds : Statement → Prop} (bound : block.Bound) (fit : picks.Fit block)
    (nested : block.NestedEnsures holds) (dialect : Dialect)
    {hops : List Traversal} (within : hops ⊆ block.traversals) :
    Returns (block.links dialect picks hops) fun links => ∀ link ∈ links, Condition.ReadElements link.placed := by
  induction hops with
  | nil => simp [links]
  | cons hop later ih =>
    rw [cons_subset] at within
    have placed := lowerPlaced_ensures dialect fit.placements
      (hopScope_serves bound within.1 (fun column _ => Term.ofColumn_readsElement .edge column)
        fun column _ => Term.ofColumn_readsElement .node column) nested
    simp only [links, returns_bind, returns_pure]
    apply placed.returns.imp
    intro conditions admitted
    apply (ih within.2).imp
    intro others reads
    rw [forall_mem_cons]
    exact ⟨fun condition mem => (admitted condition mem).references, reads⟩

section Level

variable (unsearched : picks.vector = none) (uncounted : picks.counts = none)
variable (unbounded : picks.pushdown = none)

include unsearched uncounted unbounded

theorem result_hopRowSets (hops : List Traversal) : (block.hopRowSets env picks hops).result =
      (block.links env.opts.dialect picks hops).map (block.linkRowSets env picks) := by
  induction hops with
  | nil => rfl
  | cons hop later ih =>
    have noVector : picks.vectorParts hop.nodeAlias = {} := by simp [Decisions.vectorParts, unsearched]
    unfold hopRowSets hopRowSet hopConditions links
    simp only [uncounted, result_bind, result_pure, ih, noVector,
      append_nil, unbounded, Option.map_none, ite_self, append_assoc]
    cases (block.lowerPlaced env.opts.dialect picks hop.scope (some hop.nodeAlias)).result with
    | error error => rfl
    | ok placed =>
      cases found : block.links env.opts.dialect picks later with
      | error error => rfl
      | ok links =>
        have ofLater := (links_hops env.opts.dialect later).of_ok found
        change Except.ok _ = Except.ok (block.linkRowSets env picks (⟨hop, placed⟩ :: links))
        simp only [linkRowSets, linkSelect, ofLater, append_assoc]

/-- The level of a query without counts, searches and bounds on its row sets. -/
theorem result_lineLevel : (block.chainLevel env picks).result = do
      let early ← block.loweredStart env picks
      let links ← block.links env.opts.dialect picks block.traversals
      let select ← (block.chainSelect env picks).result
      return block.lineLevel env picks early links select := by
  unfold chainLevel
  simp only [result_bind, result_pure, result_startRowSet unsearched,
    result_hopRowSets unsearched uncounted unbounded, bind_of_map]
  rfl

end Level

end Lowering

section Rows

variable [DecidableEq ν]

/-- The rows of tables that the aliases along links stand for together. -/
def assignments (block : Block Nested) (env : Setting) (picks : Decisions)
    (early : Conditions) (world : Context ν Statement)
    (links : List Link) : Multiset (Assignment ν) :=
  links.foldl (fun found link => found.bind fun assignment =>
      (block.connections env picks link.hop link.placed world
        (world.db.keyOf (assignment link.hop.joinFrom))).map (assignment.extend link.hop))
    ((block.starts env picks early world).map fun node _ => node)

/-- What a collapsed row carries of the aliases along links. -/
def portions (block : Block Nested) (picks : Decisions) (links : List Link)
    (assignment : Assignment ν) : List (Portion ν) :=
  (block.aliasesAlong links).map fun aliasName => ⟨aliasName, picks.carried aliasName, assignment aliasName⟩

/-- The row of an assignment where the row sets are collapsed. -/
def lineRow (block : Block Nested) (picks : Decisions) (db : Engine ν) (links : List Link)
    (assignment : Assignment ν) : Record ν :=
  Portion.row db (block.portions picks links assignment)

variable {block : Block Nested} {env : Setting} {picks : Decisions}
variable {early : Conditions} {world : Context ν Statement}
variable {seen links : List Link} {link : Link}

theorem assignments_concat (seen : List Link) (link : Link) :
    block.assignments env picks early world (seen ++ [link]) =
      (block.assignments env picks early world seen).bind fun assignment =>
        (block.connections env picks link.hop link.placed world
          (world.db.keyOf (assignment link.hop.joinFrom))).map (assignment.extend link.hop) := by
  simp [assignments]

theorem assignments_of_same {other : Context ν Statement} (db : other.db = world.db)
    (tables : other.tables = world.tables) (answers : other.answers = world.answers)
    (links : List Link) :
    block.assignments env picks early other links = block.assignments env picks early world links := by
  simp [assignments, starts_of_same db tables answers, db, connections_of_same db tables answers]

@[simp] theorem assignments_declare (links : List Link) (name : String) (rows : Bag ν) :
    block.assignments env picks early (world.declare name rows) links =
      block.assignments env picks early world links :=
  assignments_of_same (world.engine_declare ..) (world.tables_declare ..) (world.answers_declare ..) links

theorem mem_tables_of_mem_assignments (mem : assignment ∈ block.assignments env picks early world links) :
    assignment (block.endOf links) ∈ world.tables .nodes := by
  induction links using reverseRecOn with
  | nil =>
    obtain ⟨node, inStarts, rfl⟩ := Multiset.mem_map.mp mem
    exact (spec_of_mem_starts inStarts).1
  | append_singleton seen link =>
    rw [assignments_concat] at mem
    obtain ⟨before, -, extended⟩ := Multiset.mem_bind.mp mem
    obtain ⟨pair, connected, rfl⟩ := Multiset.mem_map.mp extended
    rw [endOf_concat, Continues.extend_node]
    exact (Context.mem_pairs (Multiset.mem_of_mem_filter connected)).2

theorem isTextKey_of_mem_assignments (typed : world.Typed)
    (mem : assignment ∈ block.assignments env picks early world links) :
    world.db.IsTextKey (world.db.keyOf (assignment (block.endOf links))) := by
  have texts := typed .nodes _ (mem_tables_of_mem_assignments mem)
  exact ⟨texts _ (by decide), texts _ (by decide)⟩

omit [DecidableEq ν] in
theorem Continues.lineRow_extend (continues : block.Continues seen link) (db : Engine ν)
    (assignment : Assignment ν) (pair : Record ν × Record ν) :
    block.lineRow picks db (seen ++ [link]) (assignment.extend link.hop pair) =
      block.lineRow picks db seen assignment ++
        db.carry (picks.carried link.hop.edgeAlias) link.hop.edgeAlias pair.1 ++
        db.carry (picks.carried link.hop.nodeAlias) link.hop.nodeAlias pair.2 := by
  have unchanged : (block.aliasesAlong seen).map (fun aliasName =>
      (⟨aliasName, picks.carried aliasName, assignment.extend link.hop pair aliasName⟩ : Portion ν)) =
      block.portions picks seen assignment :=
    map_congr_left fun aliasName mem => by rw [continues.extend_of_mem _ _ mem]
  rw [lineRow, portions, aliasesAlong_concat, map_append, unchanged]
  simp [Portion.row, lineRow, continues.extend_edge, Continues.extend_node]

namespace Line

variable (line : block.Line picks)

include line

theorem elementOf_end (hops : (seen ++ rest).map hop = block.traversals) :
    block.elementOf (block.endOf seen) = .node := by
  induction seen using reverseRecOn with
  | nil => exact block.elementOf_start
  | append_singleton before link =>
    rw [endOf_concat]
    refine line.bound.elementOf_node ?_
    rw [← hops]
    simp

section

variable (hops : (seen ++ rest).map Link.hop = block.traversals)

include hops

omit [DecidableEq ν] in
theorem portions_apart (assignment : Assignment ν) : (block.portions picks seen assignment).Pairwise Portion.Apart := by
  have sublist := aliasesAlong_sublist hops
  refine line.names.portions ?_ ?_ ?_
  · rw [portions, map_map]
    simpa [Function.comp_def] using line.bound.nodup_aliases.sublist sublist
  · intro portion mem
    obtain ⟨aliasName, along, rfl⟩ := mem_map.mp mem
    exact sublist.subset along
  · intro portion mem
    obtain ⟨aliasName, -, rfl⟩ := mem_map.mp mem
    exact line.present aliasName

omit [DecidableEq ν] in
theorem field_lineRow (db : Engine ν) (assignment : Assignment ν) {aliasName : String}
    (along : aliasName ∈ block.aliasesAlong seen) {column : Column}
    (carried : column ∈ picks.carried aliasName) :
    db.field (block.lineRow picks db seen assignment) (carriedName aliasName column) =
      db.field (assignment aliasName) column.name := by
  have mem : ⟨aliasName, picks.carried aliasName, assignment aliasName⟩ ∈
      block.portions picks seen assignment := mem_map_of_mem along
  exact Portion.field_row db (line.portions_apart hops assignment) mem carried

omit [DecidableEq ν] in
theorem carriedKey_lineRow (db : Engine ν) (assignment : Assignment ν) :
    db.carriedKey (block.endOf seen) (block.lineRow picks db seen assignment) =
      db.keyOf (assignment (block.endOf seen)) := by
  have id := line.fit.id (block.endOf seen)
  have kind := line.fit.kind _ (line.elementOf_end hops)
  simp only [Engine.carriedKey, Engine.keyOf, line.field_lineRow hops _ _ (endOf_mem seen) id,
    line.field_lineRow hops _ _ (endOf_mem seen) kind]

end

/-- A collapsed hop extends the assignments that it starts from. -/
theorem returns_collapsed (collapse : picks.collapse = true) (typed : world.Typed)
    (hops : (seen ++ link :: rest).map Link.hop = block.traversals)
    (reads : Condition.ReadElements link.placed)
    (declared : world.relations (env.rowSetName (block.endOf seen)) =
      (block.assignments env picks early world seen).map (block.lineRow picks world.db seen)) {rows : Bag ν} :
    (block.linkSelect env picks link).Returns world rows ↔
      rows = (block.assignments env picks early world (seen ++ [link])).map
        (block.lineRow picks world.db (seen ++ [link])) := by
  have continues := line.continues hops
  have key (assignment : Assignment ν) : world.db.carriedKey link.hop.joinFrom
      (block.lineRow picks world.db seen assignment) = world.db.keyOf (assignment link.hop.joinFrom) := by
    rw [continues.joinFrom]
    exact line.carriedKey_lineRow hops world.db assignment
  have records : (block.hopSource env picks link.hop).records world =
      (block.assignments env picks early world seen).map (block.lineRow picks world.db seen) := by
    rw [← declared, ← continues.joinFrom]
    simp [hopSource, collapse]
  have arrived : ∀ current ∈ (block.hopSource env picks link.hop).records world,
      world.db.IsTextKey (world.db.carriedKey link.hop.joinFrom current) := by
    intro current mem
    rw [records] at mem
    obtain ⟨assignment, inAssignments, rfl⟩ := Multiset.mem_map.mp mem
    rw [key, continues.joinFrom]
    exact isTextKey_of_mem_assignments typed inAssignments
  rw [returns_linkSelect link line.bound line.fit typed continues.mem reads arrived, records,
    Multiset.bind_map, assignments_concat, Multiset.map_bind]
  refine iff_of_eq (congrArg (rows = ·) (Multiset.bind_congr fun assignment _ => ?_))
  rw [key, Multiset.map_map]
  refine Multiset.map_congr rfl fun pair _ => ?_
  rw [Function.comp_apply, continues.lineRow_extend]
  simp [handedOn, collapse]

theorem prepares_collapsed (collapse : picks.collapse = true) (typed : world.Typed)
    (hops : (seen ++ rest).map Link.hop = block.traversals)
    (reads : ∀ link ∈ rest, Condition.ReadElements link.placed)
    (declared : world.relations (env.rowSetName (block.endOf seen)) =
      (block.assignments env picks early world seen).map (block.lineRow picks world.db seen)) :
    ∃ after : Context ν Statement,
      (∀ {other}, Level.Prepares false world (block.linkRowSets env picks rest) other ↔ other = after) ∧
      after.relations (env.rowSetName (block.endOf (seen ++ rest))) =
        (block.assignments env picks early world (seen ++ rest)).map
          (block.lineRow picks world.db (seen ++ rest)) := by
  induction rest generalizing seen world with
  | nil => exact ⟨world, Iff.rfl, by simpa using declared⟩
  | cons link later ih =>
    rw [forall_mem_cons] at reads
    have returns {rows : Bag ν} : (block.linkSelect env picks link).Returns world rows ↔
        rows = (block.assignments env picks early world (seen ++ [link])).map
          (block.lineRow picks world.db (seen ++ [link])) :=
      line.returns_collapsed collapse typed hops reads.1 declared
    rw [append_cons] at hops ⊢
    have typedAfter := typed.declare (env.rowSetName link.hop.nodeAlias)
      ((block.assignments env picks early world (seen ++ [link])).map (block.lineRow picks world.db (seen ++ [link])))
    obtain ⟨after, prepares, last⟩ := ih typedAfter hops reads.2 (by simp)
    refine ⟨after, fun {other} => ?_, by simpa using last⟩
    rw [← prepares, linkRowSets]
    exact Level.prepares_cons_iff rfl returns

end Line

end Rows

end Block

end GraphSql
