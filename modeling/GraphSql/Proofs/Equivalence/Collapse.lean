import GraphSql.Proofs.Compile
import GraphSql.Proofs.Equivalence.CollapseSelect
import GraphSql.Proofs.Semantics.Datum

namespace GraphSql

open Context Level Link List

variable {ν : Type} {after : Context ν Statement} {block : Block Nested} {select : Select Statement}

namespace Block

/-- Where the analysis collapses the row sets, the query is a line of hops without groups. -/
theorem collapsed_of_analyzeChain {opts : Options} {picks : Decisions} {plan : Plan}
    (analyzed : (block.analyzeChain opts).result = .ok (picks, plan))
    (names : block.Apart .ignored) (collapses : picks.collapse = true) (unsearched : picks.vector = none)
    (limit : block.limit = none) (offset : block.offset = none) : block.Collapsed picks := by
  obtain ⟨vector, references, rfl⟩ := references_of_analyzeChain analyzed
  obtain rfl : vector = none := unsearched
  obtain ⟨bound, searched⟩ := (block.analyzeReferences_ensures opts.dialect).of_ok references
  have isCollapsible : block.isCollapsible = true := collapses
  have counts : (block.chainDecisions opts none).counts = none := by
    cases found : (block.chainDecisions opts none).counts with
    | none => rfl
    | some counts =>
      obtain ⟨hop, -, -, -, rejected⟩ := counts_spec found
      rw [isCollapsible] at rejected
      cases rejected
  simp only [Block.isCollapsible, isGrouped, Bool.and_eq_true, Bool.not_eq_true',
    Bool.or_eq_false_iff, Bool.not_eq_false', List.isEmpty_iff, all_eq_true,
    Option.isSome_eq_false_iff, Option.isNone_iff_eq_none] at isCollapsible
  obtain ⟨⟨⟨⟨⟨-, linear⟩, required⟩, ⟨groupBy, having⟩, -⟩, selected⟩, projection⟩ := isCollapsible
  exact
    { bound, names
      fit := chainDecisions_fit opts searched
      unsearched := (block.analyzeReferences_unsearched opts.dialect).of_ok references rfl
      linear, required, vector := rfl, counts
      pushdown := by simp [chainDecisions, pushdown, limit]
      collapse := collapses
      carried := by simp [chainDecisions, isPruned, selected]
      projection, selected, groupBy, having, limit, offset }

theorem links_rejoined (block : Block Nested) (dialect : Dialect) (picks : Decisions) (hops : List Traversal) :
    block.links dialect picks.rejoined hops = block.links dialect picks hops := by
  induction hops with
  | nil => rfl
  | cons hop later ih =>
    simp only [links, ih]
    rfl

/-- Where the level with collapsed row sets is made, so is the one that joins them again, of the same
hops and predicates. -/
theorem Collapsed.level_spec {env : Setting} {picks : Decisions}
    (collapsed : block.Collapsed picks) {level : Level Statement}
    (made : (block.chainLevel env picks).result = .ok level) :
    block.Line picks ∧ ∃ early links ofLast ofJoins, block.links env.opts.dialect picks block.traversals = .ok links ∧
        block.RejoinsAlike env picks ofLast ofJoins ∧ ofLast.isGrouped = false ∧
        level = block.lineLevel env picks early links ofLast ∧
        (block.chainLevel env picks.rejoined).result =
          .ok (block.lineLevel env picks.rejoined early links ofJoins) := by
  rw [result_lineLevel collapsed.vector collapsed.counts collapsed.pushdown] at made
  obtain ⟨early, ofStart, made⟩ := exists_of_bind_eq_ok made
  obtain ⟨links, ofHops, made⟩ := exists_of_bind_eq_ok made
  obtain ⟨ofLast, selected, made⟩ := exists_of_bind_eq_ok made
  have line := collapsed.line (collapsed.existsOn_of_select.of_ok selected)
  have ungrouped := collapsed.isGrouped_of_select.of_ok selected
  obtain ⟨ofJoins, rejoined, alike⟩ := collapsed.selects_alike.exists_ok selected
  refine ⟨line, early, links, ofLast, ofJoins, ofHops, alike, ungrouped, (Except.ok.inj made).symm, ?_⟩
  have again := line.rejoined
  have sameStart : block.loweredStart env picks.rejoined = .ok early := ofStart
  rw [result_lineLevel again.vector again.counts again.pushdown, sameStart, links_rejoined, ofHops, rejoined]
  rfl

section Meaning

variable [DecidableEq ν] {world : Context ν Statement} {block : Block Nested} {env : Setting}
variable {picks : Decisions} {early : Conditions} {links : List Link}

namespace Line

variable (line : block.Line picks) (typed : world.Typed)
variable (hops : links.map Link.hop = block.traversals)
variable (reads : ∀ link ∈ links, Condition.ReadElements link.placed)

include line typed hops reads

theorem prepares_lineLevel_collapsed (collapse : picks.collapse = true) (env : Setting)
    (early : Conditions) (select : Select Statement) :
    ∃ after : Context ν Statement, (∀ {other}, Level.Prepares false world
        (block.lineLevel env picks early links select).rowSets other ↔ other = after) ∧
      after.relations (env.rowSetName block.lastAlias) = (block.assignments env picks early world links).map
          (block.lineRow picks world.db links) := by
  have declared : (world.declare (env.rowSetName block.start.aliasName)
      (block.startRows env picks early world)).relations (env.rowSetName (block.endOf [])) =
      (block.assignments env picks early (world.declare
        (env.rowSetName block.start.aliasName) (block.startRows env picks early world)) []).map
              (block.lineRow picks world.db []) := by
    rw [assignments_declare, assignments, foldl_nil, Multiset.map_map]
    refine (relations_declare ..).trans (Multiset.map_congr rfl fun node _ => ?_)
    exact (append_nil _).symm
  have whole : ([] ++ links).map hop = block.traversals := hops
  obtain ⟨after, prepares, last⟩ := line.prepares_collapsed collapse (typed.declare _ _) whole reads declared
  refine ⟨after, fun {other} => ?_, ?_⟩
  · rw [← prepares]
    exact prepares_cons_iff rfl returns_startSelect
  · rw [nil_append, endOf_eq hops, assignments_declare] at last
    exact last

theorem prepares_lineLevel_rejoined (rejoined : picks.collapse = false) (env : Setting)
    (early : Conditions) (select : Select Statement) :
    ∃ after : Context ν Statement, (∀ {other}, Level.Prepares false world
        (block.lineLevel env picks early links select).rowSets other ↔ other = after) ∧
      block.Declares env picks early after links := by
  have declares : block.Declares env picks early
      (world.declare (env.rowSetName block.start.aliasName) (block.startRows env picks early world)) [] := by
    refine ⟨?_, fun before link mem => ?_⟩
    · rw [relations_declare, starts_declare, engine_declare]
    · simp at mem
  have whole : ([] ++ links).map hop = block.traversals := hops
  obtain ⟨after, prepares, all⟩ := line.prepares_rejoined rejoined (typed.declare _ _) whole reads declares
  refine ⟨after, fun {other} => ?_, all⟩
  rw [← prepares]
  exact prepares_cons_iff rfl returns_startSelect

end Line

/-- The rows in reach of an assignment where the row sets are collapsed. -/
def lastFrame (block : Block Nested) (env : Setting) (picks : Decisions) (db : Engine ν)
    (links : List Link) (assignment : Assignment ν) : Frame ν :=
  [(.relation (env.rowSetName block.lastAlias), block.lineRow picks db links assignment)]

/-- A collapsed chain reads its last row set. -/
theorem frames_collapsed (source : select.source = .relation (env.rowSetName block.lastAlias) none)
    (joins : select.joins = [])
    (last : after.relations (env.rowSetName block.lastAlias) = (block.assignments env picks early world links).map
        (block.lineRow picks world.db links)) :
    select.frames after = ((block.assignments env picks early world links).map
        (block.lastFrame env picks world.db links)).filter (after.Holds · select.conditions) := by
  unfold Select.frames
  rw [source, joins, Source.records_relation, last, Multiset.map_map]
  rfl

/-- A rejoined chain reads the joins of all row sets. -/
theorem Line.frames_rejoined (line : block.Line picks) (typed : after.Typed)
    (unique : after.UniqueNodes) (hops : links.map hop = block.traversals)
    (source : select.source = .relation (env.rowSetName block.start.aliasName) none)
    (joins : select.joins = block.traversals.map (rowSetJoin env picks))
    (declares : block.Declares env picks early after links) :
    select.frames after = ((block.assignments env picks early after links).map
        (block.lineFrame env picks after.db links)).filter (after.Holds · select.conditions) := by
  have starts : ((after.relations (env.rowSetName block.start.aliasName)).map fun record =>
      [(Row.relation (env.rowSetName block.start.aliasName), record)]) =
      (block.assignments env picks early after []).map (block.lineFrame env picks after.db []) := by
    rw [declares.start, assignments, foldl_nil, Multiset.map_map, Multiset.map_map]
    rfl
  have whole : ([] ++ links).map hop = block.traversals := hops
  have joined := line.extendAll_rejoin typed unique whole declares
  rw [nil_append, ← starts] at joined
  unfold Select.frames
  rw [source, joins, ← hops, List.map_map, Source.records_relation]
  exact congrArg _ joined

/-- Each alias of the query is found in the row set that it is read from. -/
theorem ownedAlong_of_mem_aliases (picks : Decisions) (hops : links.map hop = block.traversals) {aliasName : String}
    (mem : aliasName ∈ block.aliases) :
    block.OwnedAlong links aliasName (block.readFrom picks.rejoined aliasName) := by
  have along {hop : Traversal} (member : hop ∈ block.traversals) : ∃ link ∈ links, link.hop = hop := by
    rw [← hops] at member
    exact List.mem_map.mp member
  have owner : block.readFrom picks.rejoined aliasName = (block.ownerOf aliasName).getD block.start.aliasName := rfl
  rw [owner]
  cases block.place aliasName with
  | start name owner _ =>
    rw [owner, name]
    exact .start
  | node hop member name owner _ =>
    obtain ⟨link, inLinks, rfl⟩ := along member
    rw [owner, name]
    exact .node inLinks
  | edge hop member name owner _ =>
    obtain ⟨link, inLinks, rfl⟩ := along member
    rw [owner, name]
    exact .edge inLinks
  | unbound absent _ _ _ => exact absurd mem absent

variable (line : block.Line picks)

include line

omit [DecidableEq ν] in
/-- What is read of an assignment in the row of its owner is read in the last row of a collapsed
line. -/
theorem Line.read_eq (hops : links.map hop = block.traversals) (db : Engine ν)
    (assignment : Assignment ν) {reference : Reference}
    (owned : block.OwnedColumn env picks reference) :
    db.read (block.lineFrame env picks db links assignment) reference =
      db.read (block.lastFrame env picks db links assignment) (reference.rename (block.lastRow env)) := by
  have whole : (links ++ []).map hop = block.traversals := by rw [append_nil, hops]
  obtain ⟨aliasName, mem, column, kept, rfl⟩ := owned
  obtain ⟨record, found, fields⟩ := line.lookup_lineFrame env whole
    (ownedAlong_of_mem_aliases picks hops mem) db assignment
  have along : aliasName ∈ block.aliasesAlong links := by
    rw [aliasesAlong_eq hops]
    exact mem
  simp [Engine.read, found, fields column kept, Reference.rename, lastRow, lastFrame,
    line.field_lineRow whole db assignment along kept]

/-- The conditions of both statements hold of the same assignments. -/
theorem Line.holds_lastFrame (hops : links.map hop = block.traversals) {ofLast ofJoins : Select Statement}
    (alike : block.RejoinsAlike env picks ofLast ofJoins) (assignment : Assignment ν) :
    world.Holds (block.lastFrame env picks world.db links assignment) ofLast.conditions ↔
      world.Holds (block.lineFrame env picks world.db links assignment) ofJoins.conditions := by
  rw [alike.conditions, Condition.renameAll_eq_map]
  refine (holds_rename fun condition mem reference read => ?_).symm
  refine line.read_eq hops world.db assignment (alike.conditionsRead reference ?_)
  rw [Condition.referencesOf_eq_flatMap]
  exact mem_flatMap.mpr ⟨condition, mem, read⟩

/-- Both levels return the same bags. -/
theorem Line.agree (collapse : picks.collapse = true) (typed : world.Typed)
    (unique : world.UniqueNodes) (hops : links.map hop = block.traversals)
    (reads : ∀ link ∈ links, Condition.ReadElements link.placed) {ofLast ofJoins : Select Statement}
    (alike : block.RejoinsAlike env picks ofLast ofJoins) {result : Bag ν} :
    (block.lineLevel env picks early links ofLast).Returns world result ↔
      (block.lineLevel env picks.rejoined early links ofJoins).Returns world
        result := by
  obtain ⟨last, prepares, lastRows⟩ := line.prepares_lineLevel_collapsed typed hops reads collapse env early ofLast
  obtain ⟨joined, joinedPrepares, declares⟩ :=
    line.rejoined.prepares_lineLevel_rejoined typed hops reads rfl env early ofJoins
  obtain ⟨lastEngine, lastAnswers⟩ := (prepares.mpr rfl).same
  obtain ⟨joinedEngine, joinedAnswers⟩ := (joinedPrepares.mpr rfl).same
  have joinedTables := (joinedPrepares.mpr rfl).tables_eq
  have joinedTyped := (joinedPrepares.mpr rfl).typed typed
  have joinedUnique := (joinedPrepares.mpr rfl).uniqueNodes unique
  have assigned : block.assignments env picks.rejoined early joined links =
      block.assignments env picks early world links :=
    assignments_of_same joinedEngine joinedTables joinedAnswers links
  -- The members that both statements read are the assignments that meet the conditions.
  let members := (block.assignments env picks early world links).filter fun assignment => world.Holds
      (block.lineFrame env picks world.db links assignment) ofJoins.conditions
  have frames : ofJoins.frames joined = members.map (block.lineFrame env picks world.db links) := by
    rw [line.rejoined.frames_rejoined joinedTyped joinedUnique hops alike.joinSource
      alike.joinJoins declares, assigned, joinedEngine, Multiset.filter_map]
    simp only [Function.comp_def, holds_of_same joinedEngine joinedAnswers]
    rfl
  have lastFrames : ofLast.frames last = members.map (block.lastFrame env picks world.db links) := by
    rw [frames_collapsed alike.lastSource alike.lastJoins lastRows, Multiset.filter_map]
    refine congrArg _ (Multiset.filter_congr fun assignment _ => ?_)
    rw [Function.comp_apply, holds_of_same lastEngine lastAnswers, line.holds_lastFrame hops alike assignment]
  have framesAlike : FramesAlike (block.lastRow env) (block.OwnedColumn env picks)
      joined last members (block.lineFrame env picks world.db links)
      (block.lastFrame env picks world.db links) := by
    refine ⟨lastEngine.trans joinedEngine.symm, lastAnswers.trans joinedAnswers.symm, ?_⟩
    intro assignment _ reference owned
    rw [joinedEngine]
    exact line.read_eq hops world.db assignment owned
  rw [returns_iff prepares, returns_iff joinedPrepares]
  exact (alike.corresponds.returns_iff framesAlike frames lastFrames alike.joinBounds alike.lastBounds).symm

end Meaning

end Block

/-- A query whose row sets are collapsed returns one bag of rows, the same as the statement that joins
the row sets again, if no two columns of its aliases differ in letter case only. -/
theorem collapse_agrees {query : Query} {opts : Options} {env : Setting}
    {picks : Decisions} {plan : Plan} {level : Level Statement}
    (analyzed :
      ((query.nested opts).analyzeChain env.opts).result = .ok (picks, plan))
    (names : (query.nested opts).Apart .ignored) (collapses : picks.collapse = true) (unsearched : picks.vector = none)
    (limit : query.block.limit = none) (offset : query.block.offset = none)
    (compiled : ((query.nested opts).chainLevel env picks).result = .ok level) :
    ∃ joined,
      ((query.nested opts).chainLevel env picks.rejoined).result = .ok joined ∧
        ∀ {ν : Type} [DecidableEq ν] (world : Context ν Statement), world.Typed →
          world.UniqueNodes →
            ∃ rows, ∀ result, (level.Returns world result ↔ result = rows) ∧
              (joined.Returns world result ↔ result = rows) := by
  have collapsed := Block.collapsed_of_analyzeChain analyzed names collapses unsearched limit offset
  obtain ⟨line, early, links, ofLast, ofJoins, ofHops, alike, ungrouped, rfl, rejoined⟩ :=
    collapsed.level_spec compiled
  have hops := (Block.links_hops env.opts.dialect _).of_ok ofHops
  have reads := (Block.links_ofElement line.bound line.fit (query.nested_ensures opts)
    env.opts.dialect (List.Subset.refl _)).of_ok ofHops
  refine ⟨_, rejoined, fun world typed unique => ?_⟩
  obtain ⟨last, prepares, -⟩ :=
    line.prepares_lineLevel_collapsed typed hops reads collapses env early ofLast
  obtain ⟨rows, returns⟩ : ∃ rows, ∀ result, ofLast.Returns last result ↔ result = rows :=
    ⟨_, fun result => Select.returns_iff_frames ungrouped alike.lastBounds⟩
  refine ⟨rows, fun result => ?_⟩
  rw [← line.agree collapses typed unique hops reads alike, Level.returns_iff prepares]
  exact ⟨returns result, returns result⟩

/-- Each person with the acquaintances of its acquaintances. -/
def introductions : Query :=
  .mk
    { start := { aliasName := "p", kinds := ["person"] }
      traversals := [.outwardFrom "p" "e" "knows" "f" "person", .outwardFrom "f" "g" "knows" "q" "person"]
      selected := some [⟨.ofColumn "p" "id", "id"⟩, ⟨.ofColumn "q" "id", "far"⟩] }

namespace introductions

def env : Setting where
  opts := {}
  graphId := "people"

def picks : Decisions := (introductions.nested {}).chainDecisions {} none

def links : List Link :=
  [⟨.outwardFrom "p" "e" "knows" "f" "person", []⟩, ⟨.outwardFrom "f" "g" "knows" "q" "person", []⟩]

def last : Select Statement where
  columns := [.quoted (.column (.relation "cte_q") "p_id") "id", .quoted (.column (.relation "cte_q") "q_id") "far"]
  source := .relation "cte_q" none

/-- Two persons lead from the first person to the last one, the second of them along two edges. -/
def diamond : Context Datum Statement :=
  Datum.graph "people" [("person", "ada"), ("person", "bob"), ("person", "cyd"), ("person", "eve")]
    [⟨"1", "knows", ("person", "ada"), ("person", "bob")⟩, ⟨"2", "knows", ("person", "ada"), ("person", "cyd")⟩,
      ⟨"3", "knows", ("person", "bob"), ("person", "eve")⟩,
      ⟨"4", "knows", ("person", "cyd"), ("person", "eve")⟩,
      ⟨"5", "knows", ("person", "cyd"), ("person", "eve")⟩]

theorem result_collapsed : ((introductions.nested {}).chainLevel env picks).result =
      .ok ((introductions.nested {}).lineLevel env picks [] links last) := rfl

theorem exists_analyzed : ∃ plan, ((introductions.nested {}).analyzeChain env.opts).result = .ok (picks, plan) :=
  ⟨_, rfl⟩

theorem names : (introductions.nested {}).Apart .ignored := Block.apart_of_noBar (by decide) (by decide)

theorem line : (introductions.nested {}).Line picks := by
  obtain ⟨plan, analyzed⟩ := exists_analyzed
  have collapsed := Block.collapsed_of_analyzeChain analyzed names rfl rfl rfl rfl
  exact (collapsed.level_spec result_collapsed).1

theorem returns_collapsed {world : Context Datum Statement} (typed : world.Typed) {result : Bag Datum} :
    ((introductions.nested {}).lineLevel env picks [] links last).Returns world result ↔
      result = ((introductions.nested {}).assignments env picks [] world links).map
        fun assignment => last.columns.flatMap (OutputColumn.record world.db 0
          ((introductions.nested {}).lastFrame env picks world.db links assignment)) := by
  have noReads : ∀ link ∈ links, Condition.ReadElements link.placed := by simp [links]
  obtain ⟨after, prepares, rows⟩ := line.prepares_lineLevel_collapsed typed rfl noReads rfl env [] last
  have returns : ((introductions.nested {}).lineLevel env picks [] links last).Returns
      world result ↔ last.Returns after result := returns_iff prepares
  have db : after.db = world.db := (prepares.mpr rfl).same.1
  have unfiltered : ∀ frame, after.Holds frame last.conditions := fun frame condition mem => by cases mem
  rw [returns, Select.returns_iff_frames rfl rfl, Block.frames_collapsed rfl rfl rows,
    Multiset.filter_eq_self.mpr fun frame _ => unfiltered frame, Multiset.map_map, ← db]
  rfl

theorem diamond_agrees :
    ∃ level joined,
      ((introductions.nested {}).chainLevel env picks).result = .ok level ∧
        ((introductions.nested {}).chainLevel env picks.rejoined).result = .ok joined ∧
        (∀ result, level.Returns diamond result ↔ joined.Returns diamond result) ∧
        joined.Returns diamond
          (Multiset.replicate 3 [("id", .text "ada"), ("far", .text "eve")]) := by
  obtain ⟨plan, analyzed⟩ := exists_analyzed
  have typed : diamond.Typed := Datum.graph_typed _ _ _
  have unique : diamond.UniqueNodes := by
    unfold Context.UniqueNodes
    decide
  obtain ⟨joined, made, agree⟩ := collapse_agrees analyzed names rfl rfl rfl rfl result_collapsed
  obtain ⟨rows, returns⟩ := agree diamond typed unique
  have same : ∀ result, _ ↔ joined.Returns diamond result := fun result =>
    (returns result).1.trans (returns result).2.symm
  refine ⟨_, joined, result_collapsed, made, same, (same _).mp ?_⟩
  exact (returns_collapsed typed).mpr (by decide)

end introductions

/-- Levels that return different rows do not agree on the only rows that they return. -/
theorem Level.returns_apart [DecidableEq ν] {world : Context ν Statement} {level other : Level Statement}
    {rows others : Bag ν} (returns : level.Returns world rows) (otherReturns : other.Returns world others)
    (apart : rows ≠ others) :
    level.Returns world rows ∧ other.Returns world others ∧ ¬ ∃ only, ∀ result,
      (level.Returns world result ↔ result = only) ∧ (other.Returns world result ↔ result = only) := by
  refine ⟨returns, otherReturns, ?_⟩
  rintro ⟨only, same⟩
  exact apart (((same rows).1.mp returns).trans ((same others).2.mp otherReturns).symm)

/-- Where the edges start that lead on from the acquaintances of a person. -/
def relayed : Query :=
  .mk
    { start := { aliasName := "p_from", kinds := ["person"] }
      traversals := [.outwardFrom "p_from" "e" "knows" "x" "person", .outwardFrom "x" "P" "knows" "y" "person"]
      selected := some [⟨.ofColumn "P" "from_id", "near"⟩] }

namespace relayed

def picks : Decisions := (relayed.nested {}).chainDecisions {} none

/-- Ada knows bob, who knows eve. -/
def trio : Context Datum Statement :=
  Datum.graph "people" [("person", "ada"), ("person", "bob"), ("person", "eve")]
    [⟨"1", "knows", ("person", "ada"), ("person", "bob")⟩, ⟨"2", "knows", ("person", "bob"), ("person", "eve")⟩]

/-- The last of the collapsed row sets has a column p_from_id of the start and a column P_from_id of the
second edge. Without quotes they have one name, so that the id of the start is read for that of the edge. -/
theorem trio_disagrees :
    trio.Typed ∧ trio.UniqueNodes ∧
      ((trio.tables .edges).map fun edge => (trio.db.field edge "graph_id", trio.db.field edge "id")).Nodup ∧
      ∃ plan level joined,
        ((relayed.nested {}).analyzeChain {}).result = .ok (picks, plan) ∧ picks.collapse = true ∧
          ((relayed.nested {}).chainLevel introductions.env picks).result = .ok level ∧
          ((relayed.nested {}).chainLevel introductions.env picks.rejoined).result = .ok joined ∧
          level.Returns trio {[("near", .text "ada")]} ∧ joined.Returns trio {[("near", .text "bob")]} ∧
          ¬ ∃ rows, ∀ result, (level.Returns trio result ↔ result = rows) ∧
            (joined.Returns trio result ↔ result = rows) := by
  have unique : trio.UniqueNodes := by
    unfold Context.UniqueNodes
    decide
  refine ⟨Datum.graph_typed _ _ _, unique, by decide, _, _, _, rfl, rfl, rfl, rfl,
    Level.returns_apart
      ⟨_, ⟨_, RowSet.returns_frames rfl rfl rfl, _, RowSet.returns_frames rfl rfl rfl, _,
        RowSet.returns_frames rfl rfl rfl, rfl⟩, (Select.returns_iff_frames rfl rfl).mpr ?_⟩
      ⟨_, ⟨_, RowSet.returns_frames rfl rfl rfl, _, RowSet.returns_frames rfl rfl rfl, _,
        RowSet.returns_frames rfl rfl rfl, rfl⟩, (Select.returns_iff_frames rfl rfl).mpr ?_⟩ ?_⟩ <;> decide

end relayed

end GraphSql
