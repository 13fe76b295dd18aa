import GraphSql.Proofs.Compile
import GraphSql.Proofs.Walks.Trail

namespace GraphSql

open Datum List Trail

variable {ids : List String} {dialect : Dialect} {entries : List (List Char)} {entry : List Char}
variable {ν : Type}

/-- The text of a visited path: its ids between bars. -/
def barred (ids : List String) : String := ids.foldl (fun path id => path ++ id ++ "|") "|"

/-- An id counts as visited. In a text it does so if it occurs there between bars. -/
def Dialect.Visits : Dialect → List String → String → Prop
  | .sqlite, ids, id => ("|" ++ id ++ "|").toList <:+: (barred ids).toList
  | .postgres, ids, id => id ∈ ids

instance (dialect : Dialect) (ids : List String) (id : String) : Decidable (dialect.Visits ids id) :=
  match dialect with
  | .sqlite => inferInstanceAs (Decidable (_ <:+: _))
  | .postgres => inferInstanceAs (Decidable (_ ∈ _))

/-- The engine computes visited paths as the dialect writes them: as texts that are concatenated and
searched, or as arrays that are appended to and compared entry by entry. -/
def Engine.TracksPaths (db : Engine ν) : Dialect → Prop
  | .sqlite =>
      (∀ id, db.pathStart (db.text id) = db.text ("|" ++ id ++ "|")) ∧
        (∀ path id, db.pathExtend (db.text path) (db.text id) = db.text (path ++ id ++ "|")) ∧
        ∀ path id, db.offPath (db.text path) (db.text id) =
          .ofBool (!decide (("|" ++ id ++ "|").toList <:+: path.toList))
  | .postgres =>
      ∃ array : List String → ν, (∀ id, db.pathStart (db.text id) = array [id]) ∧
          (∀ ids id, db.pathExtend (array ids) (db.text id) = array (ids ++ [id])) ∧
          ∀ ids id, db.offPath (array ids) (db.text id) = .ofBool (!decide (id ∈ ids))

section Bars

/-- What stands before the first bar is determined. -/
theorem eq_of_append_bar {first second rest others : List Char} (free : '|' ∉ first)
    (otherFree : '|' ∉ second) (same : first ++ '|' :: rest = second ++ '|' :: others) :
    first = second := by
  rcases append_eq_append_iff.mp same with ⟨more, rfl, later⟩ | ⟨more, rfl, later⟩
  all_goals
    cases more with
    | nil => simp
    | cons char chars =>
      obtain rfl : '|' = char := (List.cons.inj later).1
      simp at free otherFree

/-- Entries with a bar after each of them. -/
def bars (entries : List (List Char)) : List Char := entries.flatMap (· ++ ['|'])

theorem infix_bars_of_mem (mem : entry ∈ entries) : '|' :: (entry ++ ['|']) <:+: '|' :: bars entries := by
  induction entries with
  | nil => simp at mem
  | cons first rest ih =>
    rcases mem_cons.mp mem with rfl | later
    · exact ⟨[], bars rest, by simp [bars]⟩
    · exact (ih later).trans ⟨'|' :: first, [], by simp [bars]⟩

/-- Between bars there are the entries alone, if there are no bars in them. -/
theorem mem_of_infix_bars (free : '|' ∉ entry) (allFree : ∀ other ∈ entries, '|' ∉ other)
    (occurs : '|' :: (entry ++ ['|']) <:+: '|' :: bars entries) : entry ∈ entries := by
  induction entries with
  | nil =>
    have short := occurs.length_le
    simp [bars] at short
  | cons first rest ih =>
    rw [forall_mem_cons] at allFree
    have later (occurs : '|' :: (entry ++ ['|']) <:+: '|' :: bars rest) : entry ∈ first :: rest :=
      mem_cons_of_mem _ (ih allFree.2 occurs)
    obtain ⟨before, after, same⟩ := occurs
    have opened : '|' :: bars (first :: rest) = '|' :: (first ++ '|' :: bars rest) := by simp [bars]
    rw [opened] at same
    cases before with
    | nil =>
      have atStart : entry ++ '|' :: after = first ++ '|' :: bars rest := by simpa using same
      exact mem_cons.mpr (.inl (eq_of_append_bar free allFree.1 atStart))
    | cons char chars =>
      have inside : chars ++ '|' :: (entry ++ '|' :: after) = first ++ '|' :: bars rest := by
        simpa using (List.cons.inj same).2
      -- The bar before the entry is the one after the first entry, or it comes later.
      rcases append_eq_append_iff.mp inside with ⟨more, rfl, next⟩ | ⟨more, rfl, next⟩
      · cases more with
        | nil => exact later ⟨[], after, by simpa using next⟩
        | cons char chars =>
          obtain rfl : '|' = char := (List.cons.inj next).1
          simp at allFree
      · exact later ⟨more, after, by simpa using next.symm⟩

theorem toList_barred (ids : List String) : (barred ids).toList = '|' :: bars (ids.map String.toList) := by
  have appended (path : String) : (ids.foldl (fun path id => path ++ id ++ "|") path).toList =
        path.toList ++ bars (ids.map String.toList) := by
    induction ids generalizing path with
    | nil => simp [bars]
    | cons id rest ih => simp [ih, bars]
  exact appended "|"

end Bars

namespace Dialect

variable {dialect : Dialect} {ids : List String} {id : String}

theorem visits_of_mem (mem : id ∈ ids) : dialect.Visits ids id := by
  cases dialect with
  | sqlite =>
    rw [Visits, toList_barred]
    simpa using infix_bars_of_mem (mem_map_of_mem mem)
  | postgres => exact mem

/-- Where ids are not hidden by bars, no other id counts as visited. -/
theorem mem_of_visits (free : dialect = .sqlite → ∀ other ∈ id :: ids, '|' ∉ other.toList)
    (visits : dialect.Visits ids id) : id ∈ ids := by
  cases dialect with
  | sqlite =>
    have free := forall_mem_cons.mp (free rfl)
    rw [Visits, toList_barred] at visits
    have mem : id.toList ∈ ids.map String.toList := by
      refine mem_of_infix_bars free.1 (forall_mem_map.mpr free.2) ?_
      simpa using visits
    obtain ⟨other, inIds, same⟩ := mem_map.mp mem
    exact String.toList_inj.mp same ▸ inIds
  | postgres => exact visits

end Dialect

variable {db : Engine ν}

/-- A visited path is computed from the ids that were visited, and an id is off the path if it does
not count as visited. -/
theorem Engine.TracksPaths.exists_encoding (tracks : db.TracksPaths dialect) : ∃ encode : List String → ν,
      (∀ id, db.pathStart (db.text id) = encode [id]) ∧
        (∀ ids id, db.pathExtend (encode ids) (db.text id) = encode (ids ++ [id])) ∧
        ∀ ids id, db.offPath (encode ids) (db.text id) = .yes ↔ ¬ dialect.Visits ids id := by
  cases dialect with
  | sqlite =>
    obtain ⟨starts, extends', checks⟩ := tracks
    refine ⟨fun ids => db.text (barred ids), starts, fun ids id => ?_, fun ids id => ?_⟩
    · have appended : barred (ids ++ [id]) = barred ids ++ id ++ "|" := by simp [barred]
      exact (extends' _ id).trans (congrArg db.text appended.symm)
    · simp [checks, Dialect.Visits]
  | postgres =>
    obtain ⟨array, starts, extends', checks⟩ := tracks
    exact ⟨array, starts, extends', fun ids id => by simp [checks, Dialect.Visits]⟩

/-- The path of a walk refuses the ids that count as visited. -/
theorem Trail.offPath_iff (tracks : db.TracksPaths dialect) {trail : Trail ν}
    (known : trail.nodes.map (fun node => (db.keyOf node).1) = ids.map db.text)
    (id : String) :
    db.offPath (trail.position db).path (db.text id) = .yes ↔ ¬ dialect.Visits ids id := by
  obtain ⟨encode, starts, extends', checks⟩ := tracks.exists_encoding
  have path : (trail.position db).path = encode ids := by
    induction trail using induction generalizing ids with
    | start node =>
      obtain ⟨first, others, rfl, ofFirst, ofOthers⟩ := map_eq_cons_iff.mp known.symm
      obtain rfl := map_eq_nil_iff.mp ofOthers
      rw [← starts, ofFirst]
      rfl
    | step trail step ih =>
      rw [nodes_extend, map_append] at known
      obtain ⟨before, last, rfl, ofBefore, ofLast⟩ := map_eq_append_iff.mp known.symm
      obtain ⟨final, none, rfl, ofFinal, ofNone⟩ := map_eq_cons_iff.mp ofLast
      obtain rfl := map_eq_nil_iff.mp ofNone
      have last : (db.keyOf step.2).1 = db.text final := ofFinal.symm
      rw [position_extend, Walk.Position.extend, ih ofBefore.symm, last, extends']
  rw [path, checks]

namespace Walk

variable [DecidableEq ν] {world : Context ν Statement}
variable {block : Block Nested} {env : Setting} {picks : Decisions} {walk : Walk}
variable {early placed : Conditions} {trail : Trail ν}

theorem Builds.exists_ids (typed : world.Typed) (builds : walk.Builds block env picks early placed world trail) :
    ∃ ids : List String, trail.nodes.map (fun node => (world.db.keyOf node).1) = ids.map world.db.text := by
  induction builds with
  | start mem =>
    obtain ⟨id, isText⟩ := (Block.isTextKey_of_mem_starts typed mem).1
    exact ⟨[id], by simp [nodes, isText]⟩
  | @step trail step _ opens ih =>
    obtain ⟨ids, known⟩ := ih
    obtain ⟨-, inNodes, -⟩ := (mem_extensions.mp opens).1
    obtain ⟨id, isText⟩ : world.db.IsText (world.db.keyOf step.2).1 := typed .nodes step.2 inNodes _ (by decide)
    exact ⟨ids ++ [id], by rw [nodes_extend, map_append, known]; simp [isText]⟩

/-- Where a walk may go next. It refuses a node by its id, so that it comes to no node again. -/
structure ChecksPath (walk : Walk) (block : Block Nested) (env : Setting) (picks : Decisions)
    (early placed : Conditions) (world : Context ν Statement)
    (trail : Trail ν) : Prop where
  /-- No node is on the walk twice. -/
  distinct : (trail.nodes.map world.db.keyOf).Nodup
  /-- An open step is taken exactly if the id of its node does not count as visited. This is so if
  the node is off the walk, where no other kind of node on the walk has its id and, in a text, no bar
  hides ids. -/
  admits : ∃ ids : List String, trail.nodes.map (fun node => (world.db.keyOf node).1) = ids.map world.db.text ∧
      ∀ step, walk.Opens block env picks placed world trail.finish step →
        trail.length < walk.range.greatest.toNat → ∃ id, (world.db.keyOf step.2).1 = world.db.text id ∧
            (walk.Builds block env picks early placed world (trail.extend step) ↔ ¬ env.opts.dialect.Visits ids id) ∧
            (walk.Builds block env picks early placed world (trail.extend step) →
              world.db.keyOf step.2 ∉ trail.nodes.map world.db.keyOf) ∧
            ((∀ node ∈ trail.nodes, (world.db.keyOf node).1 = (world.db.keyOf step.2).1 →
                  world.db.keyOf node = world.db.keyOf step.2) →
              (env.opts.dialect = .sqlite → ∀ other ∈ id :: ids, '|' ∉ other.toList) →
                (walk.Builds block env picks early placed world
                    (trail.extend step) ↔
                  world.db.keyOf step.2 ∉ trail.nodes.map world.db.keyOf))

/-- A step that leads on from the end of a walk is taken if the walk may get longer and the id of its
node does not count as visited. -/
theorem builds_extend_iff (tracked : walk.walk.tracksPath = true) (tracks : world.db.TracksPaths env.opts.dialect)
    (builds : walk.Builds block env picks early placed world trail)
    {step : Record ν × Record ν}
    (opens : walk.Opens block env picks placed world trail.finish step)
    (short : trail.length < walk.range.greatest.toNat)
    (known : trail.nodes.map (fun node => (world.db.keyOf node).1) = ids.map world.db.text)
    {id : String} (named : (world.db.keyOf step.2).1 = world.db.text id) :
    walk.Builds block env picks early placed world (trail.extend step) ↔ ¬ env.opts.dialect.Visits ids id := by
  rw [builds_extend, mem_extensions, named, offPath_iff tracks known]
  simp [builds, opens, short, tracked]

omit [DecidableEq ν] in
theorem id_mem_of_key_mem {node : Record ν}
    (known : trail.nodes.map (fun node => (db.keyOf node).1) = ids.map db.text)
    {id : String} (named : (db.keyOf node).1 = db.text id)
    (onWalk : db.keyOf node ∈ trail.nodes.map db.keyOf) : id ∈ ids := by
  obtain ⟨other, mem, same⟩ := mem_map.mp onWalk
  have inIds : db.text id ∈ ids.map db.text := by
    rw [← known, ← named, ← same]
    exact mem_map_of_mem mem
  obtain ⟨visited, inList, sameText⟩ := mem_map.mp inIds
  exact db.text_injective sameText ▸ inList

/-- Every walk that is built with a tracked path visits its nodes once. -/
theorem Builds.checksPath (typed : world.Typed) (tracked : walk.walk.tracksPath = true)
    (tracks : world.db.TracksPaths env.opts.dialect)
    (builds : walk.Builds block env picks early placed world trail) :
    walk.ChecksPath block env picks early placed world trail := by
  have offWalk {trail : Trail ν} (builds : walk.Builds block env picks early placed world trail)
      {step : Record ν × Record ν}
      (opens : step ∈ walk.extensions block env picks placed world (trail.position world.db)) :
      world.db.keyOf step.2 ∉ trail.nodes.map world.db.keyOf := by
    obtain ⟨ids, known⟩ := builds.exists_ids typed
    obtain ⟨leads, short, -⟩ := mem_extensions.mp opens
    obtain ⟨id, named⟩ : world.db.IsText (world.db.keyOf step.2).1 := typed .nodes step.2 leads.2.1 _ (by decide)
    have unvisited := (builds_extend_iff tracked tracks builds leads short known named).mp
      (builds_extend.mpr ⟨builds, opens⟩)
    exact fun onWalk => unvisited (Dialect.visits_of_mem (id_mem_of_key_mem known named onWalk))
  refine ⟨?_, ?_⟩
  · induction builds with
    | start mem => simp [nodes]
    | step before opens ih =>
      rw [nodes_extend, map_append]
      exact nodup_append.mpr ⟨ih, nodup_singleton _, by
        rintro key onWalk _ last rfl
        rw [map_singleton, mem_singleton] at last
        exact offWalk before opens (last ▸ onWalk)⟩
  · obtain ⟨ids, known⟩ := builds.exists_ids typed
    refine ⟨ids, known, fun step opens short => ?_⟩
    obtain ⟨id, named⟩ : world.db.IsText (world.db.keyOf step.2).1 := typed .nodes step.2 opens.2.1 _ (by decide)
    have admits := builds_extend_iff tracked tracks builds opens short known named
    have leaves : walk.Builds block env picks early placed world (trail.extend step) →
        world.db.keyOf step.2 ∉ trail.nodes.map world.db.keyOf :=
      fun taken => offWalk builds (builds_extend.mp taken).2
    refine ⟨id, named, admits, leaves, fun oneKind free => ⟨leaves, fun off => admits.mpr ?_⟩⟩
    intro visits
    have mem := mem_map_of_mem (f := world.db.text) (Dialect.mem_of_visits free visits)
    rw [← known] at mem
    obtain ⟨node, onWalk, sameId⟩ := mem_map.mp mem
    rw [← oneKind node onWalk (sameId.trans named.symm)] at off
    exact off (mem_map_of_mem onWalk)

end Walk

/-- A query with a walk that tracks its path builds walks that visit no node twice. An open step is
taken exactly if the id of its node does not count as visited: hence nodes of different kinds must not
share an id, and ids must be free of bars where the path is a text, for the walk to refuse only the nodes
that are on it. -/
theorem cycles_prevented {query : Query} {opts : Options} {env : Setting} {walk : Walk}
    {level : Level Statement} {plan : Plan} (found : query.block.walk = .ok walk)
    (tracked : walk.walk.tracksPath = true)
    (compiled : ((query.nested opts).compileWalk env).result = .ok (level, plan)) :
    ∃ early placed,
      ((query.nested opts).lowerPlaced env.opts.dialect
        ((query.nested opts).walkDecisions env.opts none) (query.nested opts).startScope
        (some query.block.start.aliasName)).result = .ok early ∧
      walk.placed (query.nested opts) env
        ((query.nested opts).walkDecisions env.opts none) = .ok placed ∧
      ∀ {ν : Type} [DecidableEq ν] (world : Context ν Statement), world.Typed →
        world.db.TracksPaths env.opts.dialect →
          ∃ trails : Multiset (Trail ν),
            (∀ trail, trail ∈ trails ↔
              walk.Builds (query.nested opts) env
                ((query.nested opts).walkDecisions env.opts none) early placed world
                trail) ∧
            (∀ after, Level.Prepares level.isRecursive world level.rowSets after ↔
              after = world.declare (Walk.rowSetName env)
                (trails.map fun trail => walk.row (query.nested opts)
                  ((query.nested opts).walkDecisions env.opts none) world.db
                  (trail.position world.db))) ∧
            ∀ trail ∈ trails,
              walk.ChecksPath (query.nested opts) env
                ((query.nested opts).walkDecisions env.opts none) early placed world
                trail := by
  have walked : (query.nested opts).walk = .ok walk := found
  obtain ⟨one, early, placed, select, atStart, lowered, -, rfl⟩ := Block.compileWalk_spec walked compiled
  have reads := one.placed_ofElement (query.nested_ensures opts) lowered
  refine ⟨early, placed, atStart, lowered, fun world typed tracks =>
    ⟨_, fun trail => Walk.mem_trails, fun after => ?_, fun trail mem => ?_⟩⟩
  · refine (one.prepares_level typed reads early select).trans ?_
    rw [Walk.walkContext, Walk.walks_eq_trails, Multiset.map_map]
    rfl
  · exact (Walk.mem_trails.mp mem).checksPath typed tracked tracks

theorem Datum.engine_tracksPaths : Datum.db.TracksPaths .sqlite := ⟨fun _ => rfl, fun _ _ => rfl, fun _ _ => rfl⟩

theorem Datum.arrayEngine_tracksPaths : arrayEngine.TracksPaths .postgres :=
  ⟨.array, fun _ => rfl, fun _ _ => rfl, fun _ _ => rfl⟩

/-- The persons and companies that a person is connected with over at most two steps. -/
def network : Query :=
  .mk
    { start := { aliasName := "p", kinds := ["person"] }
      traversals :=
        [{ Traversal.outwardFrom "p" "e" "knows" "f" "person" with
            nodeKinds := ["person", "company"], walk := some { minDepth := 1, maxDepth := 2 } }]
      projection := [⟨"id", .field (.ofColumn "p" "id")⟩, ⟨"known", .field (.ofColumn "f" "id")⟩] }

namespace network

def env (dialect : Dialect) : Setting where
  opts := { dialect }
  graphId := "people"

def walk : Walk where
  hop :=
    { Traversal.outwardFrom "p" "e" "knows" "f" "person" with
      nodeKinds := ["person", "company"], walk := some { minDepth := 1, maxDepth := 2 } }
  walk := { minDepth := 1, maxDepth := 2 }
  range := ⟨1, 2⟩

/-- A person who knows one other node. -/
def acquainted (db : Engine Datum) (first second : String × String) : Context Datum Statement :=
  { graph "people" [first, second] [⟨"1", "knows", first, second⟩] with db }

/-- The step from the one node to the other one. -/
def step (first second : String × String) : Record Datum × Record Datum :=
  (edgeRow "people" ⟨"1", "knows", first, second⟩, nodeRow "people" second)

/-- The walks of the query, which has no filters. -/
def Builds (dialect : Dialect) (world : Context Datum Statement) : Trail Datum → Prop :=
  walk.Builds (network.nested (env dialect).opts) (env dialect)
    ((network.nested (env dialect).opts).walkDecisions (env dialect).opts none) [] []
    world

/-- A company with an id of its own is reached. -/
theorem company_reached :
    ∃ level plan,
      ((network.nested {}).compileWalk (env .sqlite)).result = .ok (level, plan) ∧
      Builds .sqlite (acquainted Datum.db ("person", "ada") ("company", "acme"))
        (Trail.extend ⟨Datum.nodeRow "people" ("person", "ada"), []⟩
          (step ("person", "ada") ("company", "acme"))) := by
  have typed : (acquainted Datum.db ("person", "ada") ("company", "acme")).Typed := Datum.graph_typed _ _ _
  have found : network.block.walk = .ok walk := rfl
  have compiled : ((network.nested {}).compileWalk (env .sqlite)).result = .ok (_, _) := rfl
  obtain ⟨early, placed, atStart, lowered, checked⟩ := cycles_prevented found rfl compiled
  obtain rfl : [] = early := Except.ok.inj atStart
  obtain rfl : [] = placed := Except.ok.inj lowered
  obtain ⟨trails, members, -, checks⟩ := checked _ typed Datum.engine_tracksPaths
  refine ⟨_, _, compiled, ?_⟩
  have started : Builds .sqlite (acquainted Datum.db ("person", "ada") ("company", "acme"))
      ⟨Datum.nodeRow "people" ("person", "ada"), []⟩ := .start (by decide)
  obtain ⟨ids, known, admits⟩ := (checks _ ((members _).mpr started)).admits
  obtain ⟨id, named, -, -, onlyOnWalk⟩ := admits (step ("person", "ada") ("company", "acme"))
    (by decide) (by decide)
  obtain rfl : "acme" = id := Datum.text.inj named
  obtain rfl : ["ada"] = ids := List.map_injective_iff.mpr (fun _ _ same => Datum.text.inj same) known
  exact (onlyOnWalk (by decide) (by decide)).mpr (by decide)

/-- The walk from the first node does not go on to the second one, although a step leads there and
the walk has not come to this node before. -/
structure Refuses (dialect : Dialect) (db : Engine Datum) (first second : String × String) : Prop where
  nodes : (acquainted db first second).UniqueNodes
  edges : (acquainted db first second).UniqueEdges
  tracks : db.TracksPaths dialect
  started : Builds dialect (acquainted db first second) ⟨nodeRow "people" first, []⟩
  opens : walk.Opens (network.nested (env dialect).opts) (env dialect)
    ((network.nested (env dialect).opts).walkDecisions (env dialect).opts none) []
    (acquainted db first second) (nodeRow "people" first) (step first second)
  apart : db.keyOf (nodeRow "people" second) ≠ db.keyOf (nodeRow "people" first)
  refused : ¬ Builds dialect (acquainted db first second)
    (Trail.extend ⟨nodeRow "people" first, []⟩ (step first second))

/-- A company is refused after a person with the same id, in either dialect; and in a text, an id is
refused after an id that has it between bars. -/
theorem namesake_refused :
    Refuses .sqlite Datum.db ("person", "ada") ("company", "ada") ∧
      Refuses .postgres Datum.arrayEngine ("person", "ada") ("company", "ada") ∧
      Refuses .sqlite Datum.db ("person", "a|b|c") ("person", "b") := by
  have closed {dialect : Dialect} {world : Context Datum Statement} {trail : Trail Datum}
      {step : Record Datum × Record Datum}
      (shut : step ∉ walk.extensions (network.nested (env dialect).opts) (env dialect)
        ((network.nested (env dialect).opts).walkDecisions (env dialect).opts none) []
        world (trail.position world.db)) : ¬ Builds dialect world (trail.extend step) :=
    fun builds => shut (Walk.builds_extend.mp builds).2
  refine ⟨⟨?_, ?_, Datum.engine_tracksPaths, .start (by decide), by decide, by decide,
      closed (by decide)⟩,
    ⟨?_, ?_, Datum.arrayEngine_tracksPaths, .start (by decide), by decide, by decide,
      closed (by decide)⟩,
    ⟨?_, ?_, Datum.engine_tracksPaths, .start (by decide), by decide, by decide,
      closed (by decide)⟩⟩
  all_goals
    simp only [Context.UniqueNodes, Context.UniqueEdges]
    decide

end network

end GraphSql
