import GraphSql.Proofs.Equivalence.Line

namespace GraphSql

open Engine Link List Multiset Portion

variable {ν : Type}

/-- An entry is looked up by its key, where entries with one key have one value. -/
theorem lookup_map_of_mem {α κ β : Type} [BEq κ] [LawfulBEq κ] (key : α → κ) (value : α → β)
    {entries : List α} {entry : α} (mem : entry ∈ entries)
    (same : ∀ other ∈ entries, key other = key entry → value other = value entry) :
    (entries.map fun other => (key other, value other)).lookup (key entry) = some (value entry) := by
  induction entries with
  | nil => simp at mem
  | cons first rest ih =>
    rw [List.forall_mem_cons] at same
    rw [List.map_cons, lookup_cons]
    by_cases found : key entry = key first
    · rw [found, beq_self_eq_true, same.1 found.symm]
    · have later : entry ∈ rest := by
        refine (List.mem_cons.mp mem).resolve_left fun isFirst => found ?_
        rw [isFirst]
      rw [beq_false_of_ne found]
      exact ih later same.2

variable {assignment : Assignment ν}

namespace Block

variable [DecidableEq ν] {block : Block Nested} {env : Setting} {picks : Decisions}
variable {early : Conditions} {world : Context ν Statement}
variable {seen rest links : List Link} {link : Link}

/-- A row set that is read once for each key has each key once. -/
theorem map_carriedKey_distinct (world : Context ν Statement) (name aliasName : String) (row : Row) :
    ((Source.distinct name [carriedName aliasName .id, carriedName aliasName .kind] row).records
        world).map (world.db.carriedKey aliasName) =
      ((world.relations name).map (world.db.carriedKey aliasName)).dedup := by
  have inverse : Function.LeftInverse (world.db.carriedKey aliasName)
      fun key => [(carriedName aliasName .id, key.1), (carriedName aliasName .kind, key.2)] := by
    exact fun key => carriedKey_cons _ _ key []
  have records : (Source.distinct name [carriedName aliasName .id, carriedName aliasName .kind]
      row).records world = (((world.relations name).map (world.db.carriedKey aliasName)).map fun key =>
          [(carriedName aliasName .id, key.1), (carriedName aliasName .kind, key.2)]).dedup := by
    rw [Multiset.map_map]
    rfl
  rw [records, Multiset.dedup_map_of_injective inverse.injective, Multiset.map_map, inverse.comp_eq_id, Multiset.map_id]

section

variable (block : Block Nested) (env : Setting) (picks : Decisions)

/-- The keys that links lead to from the start nodes, each taken once. -/
def reached (early : Conditions) (world : Context ν Statement) (links : List Link) : Multiset (ν × ν) :=
  links.foldl (fun keys link => (keys.bind fun key =>
      (block.connections env picks link.hop link.placed world key).map fun pair => world.db.keyOf pair.2).dedup)
    ((block.starts env picks early world).map world.db.keyOf)

/-- The connections of some keys, one row for each. -/
def linkRows (world : Context ν Statement) (keys : Multiset (ν × ν)) (link : Link) : Bag ν :=
  keys.bind fun key =>
    (block.connections env picks link.hop link.placed world key).map (hopRow picks link.hop world.db key)

/-- Each row set along the links has the connections of the keys that are reached before it. -/
structure Declares (early : Conditions) (world : Context ν Statement) (links : List Link) : Prop where
  start : world.relations (env.rowSetName block.start.aliasName) =
    (block.starts env picks early world).map (block.startRow picks world.db)
  hops : ∀ before link, before ++ [link] <+: links → world.relations (env.rowSetName link.hop.nodeAlias) =
      block.linkRows env picks world
        (block.reached env picks early world before) link

end

/-- What a row of a hop carries of the aliases of the hop. -/
def hopPortions (picks : Decisions) (hop : Traversal) (origin : Record ν)
    (pair : Record ν × Record ν) : List (Portion ν) :=
  [⟨hop.joinFrom, [.id, .kind], origin⟩, ⟨hop.edgeAlias, picks.carried hop.edgeAlias, pair.1⟩,
    ⟨hop.nodeAlias, picks.carried hop.nodeAlias, pair.2⟩]

section

variable (picks : Decisions) (hop : Traversal) (origin : Record ν) (pair : Record ν × Record ν)

omit [DecidableEq ν] in
theorem edge_mem_hopPortions : ⟨hop.edgeAlias, picks.carried hop.edgeAlias, pair.1⟩ ∈
      hopPortions picks hop origin pair := by
  simp [hopPortions]

omit [DecidableEq ν] in
theorem node_mem_hopPortions : ⟨hop.nodeAlias, picks.carried hop.nodeAlias, pair.2⟩ ∈
      hopPortions picks hop origin pair := by
  simp [hopPortions]

end

omit [DecidableEq ν] in
theorem hopRow_eq_row (picks : Decisions) (hop : Traversal) (db : Engine ν)
    (origin : Record ν) (pair : Record ν × Record ν) :
    hopRow picks hop db (db.keyOf origin) pair = row db (hopPortions picks hop origin pair) := by
  simp [hopRow, row, hopPortions, carry, keyOf]

theorem reached_concat (seen : List Link) (link : Link) : block.reached env picks early world (seen ++ [link]) =
      ((block.reached env picks early world seen).bind fun key =>
        (block.connections env picks link.hop link.placed world key).map fun pair =>
          world.db.keyOf pair.2).dedup := by
  simp [reached]

@[simp] theorem reached_declare (links : List Link) (name : String) (rows : Bag ν) :
    block.reached env picks early (world.declare name rows) links = block.reached env picks early world links := by
  simp [reached]

@[simp] theorem linkRows_declare (keys : Multiset (ν × ν)) (name : String) (rows : Bag ν) :
    block.linkRows env picks (world.declare name rows) keys link = block.linkRows env picks world keys link := by
  simp [linkRows]

theorem exists_node_of_mem_reached {key : ν × ν} (mem : key ∈ block.reached env picks early world links) :
    ∃ node ∈ world.tables .nodes, world.db.keyOf node = key := by
  induction links using reverseRecOn with
  | nil =>
    obtain ⟨node, inStarts, same⟩ := Multiset.mem_map.mp mem
    exact ⟨node, (spec_of_mem_starts inStarts).1, same⟩
  | append_singleton seen link =>
    rw [reached_concat, Multiset.mem_dedup] at mem
    obtain ⟨before, -, connected⟩ := mem_bind.mp mem
    obtain ⟨pair, inConnections, same⟩ := Multiset.mem_map.mp connected
    exact ⟨pair.2, (Context.mem_pairs (Multiset.mem_of_mem_filter inConnections)).2, same⟩

theorem isTextKey_of_mem_reached (typed : world.Typed) {key : ν × ν}
    (mem : key ∈ block.reached env picks early world links) :
    world.db.IsTextKey key := by
  obtain ⟨node, inNodes, rfl⟩ := exists_node_of_mem_reached mem
  have texts := typed .nodes node inNodes
  exact ⟨texts _ (by decide), texts _ (by decide)⟩

theorem nodup_reached (unique : world.UniqueNodes) : (block.reached env picks early world links).Nodup := by
  induction links using reverseRecOn with
  | nil => exact nodup_starts unique
  | append_singleton seen link =>
    rw [reached_concat]
    exact Multiset.nodup_dedup _

namespace Line

variable (line : block.Line picks)

include line

theorem keyOf_mem_reached (hops : (seen ++ rest).map hop = block.traversals)
    (mem : assignment ∈ block.assignments env picks early world seen) :
    world.db.keyOf (assignment (block.endOf seen)) ∈ block.reached env picks early world seen := by
  induction seen using reverseRecOn generalizing assignment rest with
  | nil =>
    obtain ⟨node, inStarts, rfl⟩ := Multiset.mem_map.mp mem
    exact Multiset.mem_map_of_mem _ inStarts
  | append_singleton before link ih =>
    rw [← append_cons] at hops
    rw [assignments_concat] at mem
    obtain ⟨earlier, inBefore, extended⟩ := mem_bind.mp mem
    obtain ⟨pair, connected, rfl⟩ := Multiset.mem_map.mp extended
    have origin := ih hops inBefore
    rw [← (line.continues hops).joinFrom] at origin
    rw [endOf_concat, Continues.extend_node, reached_concat, Multiset.mem_dedup]
    exact mem_bind.mpr ⟨_, origin, Multiset.mem_map_of_mem _ connected⟩

omit [DecidableEq ν] in
/-- A row of a hop carries the columns of the edge and the node, and the key that it is joined by. -/
theorem hopPortions_apart (hops : (seen ++ link :: rest).map hop = block.traversals)
    (origin : Record ν) (pair : Record ν × Record ν) :
    (hopPortions picks link.hop origin pair).Pairwise Portion.Apart := by
  have continues := line.continues hops
  have fromEnd : link.hop.joinFrom ∈ block.aliasesAlong seen := by
    rw [continues.joinFrom]
    exact endOf_mem seen
  have isNode := line.elementOf_end hops
  rw [← continues.joinFrom] at isNode
  have mem : ∀ portion ∈ hopPortions picks link.hop origin pair, portion = ⟨link.hop.joinFrom, [.id, .kind], origin⟩ ∨
        portion = ⟨link.hop.edgeAlias, picks.carried link.hop.edgeAlias, pair.1⟩ ∨
        portion = ⟨link.hop.nodeAlias, picks.carried link.hop.nodeAlias, pair.2⟩ := by
    simp [hopPortions]
  refine line.names.portions ?_ ?_ ?_
  · simp [hopPortions, continues.ne_edge fromEnd, continues.ne_node fromEnd, continues.edge_ne_node]
  · intro portion member
    rcases mem portion member with rfl | rfl | rfl
    · refine continues.within ?_
      rw [aliasesAlong_concat]
      exact mem_append_left _ fromEnd
    · exact edge_mem_aliases continues.mem
    · exact node_mem_aliases continues.mem
  · intro portion member
    rcases mem portion member with rfl | rfl | rfl
    · rw [isNode]
      simp [Column.existsOn]
    · exact line.present _
    · exact line.present _

omit [DecidableEq ν] in
theorem carriedKey_hopRow_node (hops : (seen ++ link :: rest).map hop = block.traversals)
    (db : Engine ν) (origin : Record ν) (pair : Record ν × Record ν) :
    db.carriedKey link.hop.nodeAlias (hopRow picks link.hop db (db.keyOf origin) pair) = db.keyOf pair.2 := by
  have isNode := line.bound.elementOf_node (line.continues hops).mem
  have keyed := carriedKey_row db (line.hopPortions_apart hops origin pair)
    (node_mem_hopPortions picks link.hop origin pair) (line.fit.id _) (line.fit.kind _ isNode)
  rw [hopRow_eq_row]
  exact keyed

variable (rejoined : picks.collapse = false)

include rejoined

/-- A hop starts from each key that is reached once. -/
theorem map_carriedKey_hopSource (hops : (seen ++ link :: rest).map hop = block.traversals)
    (declares : block.Declares env picks early world seen) :
    ((block.hopSource env picks link.hop).records world).map (world.db.carriedKey link.hop.joinFrom) =
      block.reached env picks early world seen := by
  have continues := line.continues hops
  induction seen using reverseRecOn with
  | nil =>
    have joinFrom : link.hop.joinFrom = block.start.aliasName := continues.joinFrom
    have source : (block.hopSource env picks link.hop).records world = block.startRows env picks early world := by
      rw [startRows, ← declares.start]
      simp [hopSource, joinFrom]
    rw [source, Multiset.map_map, joinFrom]
    refine Multiset.map_congr rfl fun node _ => ?_
    exact carriedKey_startRow line.fit world.db node
  | append_singleton before previous =>
    have joinFrom : link.hop.joinFrom = previous.hop.nodeAlias := by rw [continues.joinFrom, endOf_concat]
    rw [← append_cons] at hops
    have notStart := line.bound.start_ne_node (line.continues hops).mem
    have source : block.hopSource env picks link.hop = .distinct (env.rowSetName previous.hop.nodeAlias)
          [carriedName previous.hop.nodeAlias .id, carriedName previous.hop.nodeAlias .kind]
          .source := by
      simp [hopSource, rejoined, joinFrom, notStart.symm]
    rw [source, joinFrom, map_carriedKey_distinct, declares.hops before previous prefix_rfl,
      reached_concat, linkRows, Multiset.map_bind]
    refine congrArg Multiset.dedup (Multiset.bind_congr fun key mem => ?_)
    obtain ⟨origin, -, rfl⟩ := exists_node_of_mem_reached mem
    rw [Multiset.map_map]
    exact Multiset.map_congr rfl fun pair _ => line.carriedKey_hopRow_node hops world.db origin pair

/-- A hop that is joined again later has the connections of the keys that are reached before it. -/
theorem returns_rejoined (typed : world.Typed) (hops : (seen ++ link :: rest).map hop = block.traversals)
    (reads : Condition.ReadElements link.placed)
    (declares : block.Declares env picks early world seen) {rows : Bag ν} :
    (block.linkSelect env picks link).Returns world rows ↔ rows = block.linkRows env picks world
        (block.reached env picks early world seen) link := by
  have keys := line.map_carriedKey_hopSource rejoined hops declares
  have arrived : ∀ current ∈ (block.hopSource env picks link.hop).records world,
      world.db.IsTextKey (world.db.carriedKey link.hop.joinFrom current) := by
    intro current mem
    have key := Multiset.mem_map_of_mem (world.db.carriedKey link.hop.joinFrom) mem
    rw [keys] at key
    exact isTextKey_of_mem_reached typed key
  rw [returns_linkSelect link line.bound line.fit typed (line.continues hops).mem reads arrived,
    linkRows, ← keys, bind_map]
  simp only [handedOn, rejoined, Bool.false_eq_true, if_false]
  rfl

/-- The row sets of a line that is joined again get their rows one after another. -/
theorem prepares_rejoined (typed : world.Typed) (hops : (seen ++ rest).map hop = block.traversals)
    (reads : ∀ link ∈ rest, Condition.ReadElements link.placed)
    (declares : block.Declares env picks early world seen) :
    ∃ after : Context ν Statement,
      (∀ {other}, Level.Prepares false world (block.linkRowSets env picks rest) other ↔ other = after) ∧
      block.Declares env picks early after (seen ++ rest) := by
  induction rest generalizing seen world with
  | nil => exact ⟨world, Iff.rfl, by simpa using declares⟩
  | cons link later ih =>
    rw [List.forall_mem_cons] at reads
    have continues := line.continues hops
    have returns {rows : Bag ν} : (block.linkSelect env picks link).Returns world rows ↔
        rows = block.linkRows env picks world (block.reached env picks early world seen) link :=
      line.returns_rejoined rejoined typed hops reads.1 declares
    rw [append_cons] at hops ⊢
    have apart {aliasName : String} (mem : aliasName ∈ block.aliasesAlong seen) :
        env.rowSetName aliasName ≠ env.rowSetName link.hop.nodeAlias :=
      fun same => continues.ne_node mem (rowSetName_injective _ same)
    have declaresAfter : block.Declares env picks early
        (world.declare (env.rowSetName link.hop.nodeAlias) (block.linkRows env picks world
            (block.reached env picks early world seen) link)) (seen ++ [link]) := by
      refine ⟨?_, ?_⟩
      · rw [Context.relations_declare_of_ne _ _ (apart List.mem_cons_self), declares.start]
        simp
      · intro before other mem
        rcases prefix_concat_iff.mp mem with same | earlier
        · obtain ⟨rfl, rfl⟩ := append_singleton_inj.mp same
          simp
        · have inSeen : other ∈ seen := earlier.subset (by simp)
          rw [Context.relations_declare_of_ne _ _ (apart (node_mem_aliasesAlong inSeen)),
            declares.hops before other earlier]
          simp
    obtain ⟨after, prepares, all⟩ := ih (typed.declare _ _) hops reads.2 declaresAfter
    refine ⟨after, fun {other} => ?_, all⟩
    rw [← prepares, linkRowSets]
    exact Level.prepares_cons_iff rfl returns

end Line

/-- The rows in reach of an assignment where the row sets are joined again. -/
def lineFrame (block : Block Nested) (env : Setting) (picks : Decisions) (db : Engine ν)
    (links : List Link) (assignment : Assignment ν) : Frame ν :=
  (.relation (env.rowSetName block.start.aliasName), block.startRow picks db (assignment block.start.aliasName)) ::
    links.map fun link =>
      (.relation (env.rowSetName link.hop.nodeAlias),
        hopRow picks link.hop db (db.keyOf (assignment link.hop.joinFrom))
          (assignment link.hop.edgeAlias, assignment link.hop.nodeAlias))

omit [DecidableEq ν] in
theorem Continues.lineFrame_extend (continues : block.Continues seen link) (db : Engine ν)
    (assignment : Assignment ν) (pair : Record ν × Record ν) :
    block.lineFrame env picks db (seen ++ [link]) (assignment.extend link.hop pair) =
      block.lineFrame env picks db seen assignment ++ [(.relation (env.rowSetName link.hop.nodeAlias),
          hopRow picks link.hop db (db.keyOf (assignment link.hop.joinFrom)) pair)] := by
  have fromEnd : link.hop.joinFrom ∈ block.aliasesAlong seen := by
    rw [continues.joinFrom]
    exact endOf_mem seen
  have start : block.start.aliasName ∈ block.aliasesAlong seen := List.mem_cons_self
  have unchanged : seen.map (fun other =>
      ((Row.relation (env.rowSetName other.hop.nodeAlias), hopRow picks other.hop db
          (db.keyOf (assignment.extend link.hop pair other.hop.joinFrom))
          (assignment.extend link.hop pair other.hop.edgeAlias,
            assignment.extend link.hop pair other.hop.nodeAlias)) : Row × Record ν)) =
      seen.map fun other =>
        (.relation (env.rowSetName other.hop.nodeAlias),
          hopRow picks other.hop db (db.keyOf (assignment other.hop.joinFrom))
            (assignment other.hop.edgeAlias, assignment other.hop.nodeAlias)) := by
    refine map_congr_left fun other mem => ?_
    rw [continues.extend_of_mem _ _ (continues.before other mem),
      continues.extend_of_mem _ _ (edge_mem_aliasesAlong mem),
      continues.extend_of_mem _ _ (node_mem_aliasesAlong mem)]
  rw [lineFrame, map_append, unchanged, continues.extend_of_mem _ _ start]
  simp [continues.extend_of_mem _ _ fromEnd, continues.extend_edge, Continues.extend_node, lineFrame]

/-- The alias is found in the row set of the owner. -/
inductive OwnedAlong (block : Block Nested) (links : List Link) : String → String → Prop where
  | start : OwnedAlong block links block.start.aliasName block.start.aliasName
  | edge {link : Link} (mem : link ∈ links) : OwnedAlong block links link.hop.edgeAlias link.hop.nodeAlias
  | node {link : Link} (mem : link ∈ links) : OwnedAlong block links link.hop.nodeAlias link.hop.nodeAlias

theorem OwnedAlong.ofEnd (block : Block Nested) (links : List Link) :
    block.OwnedAlong links (block.endOf links) (block.endOf links) := by
  induction links using reverseRecOn with
  | nil => exact .start
  | append_singleton seen link =>
    rw [endOf_concat]
    exact .node (by simp)

namespace Line

variable (line : block.Line picks)

include line

omit [DecidableEq ν] in
/-- Where the row sets are joined again, what an alias stands for is found in the row of its owner. -/
theorem lookup_lineFrame (env : Setting) (hops : (seen ++ rest).map hop = block.traversals) {aliasName owner : String}
    (owned : block.OwnedAlong seen aliasName owner) (db : Engine ν)
    (assignment : Assignment ν) :
    ∃ record, (block.lineFrame env picks db seen assignment).lookup (.relation (env.rowSetName owner)) = some record ∧
      ∀ column ∈ picks.carried aliasName, db.field record (carriedName aliasName column) =
          db.field (assignment aliasName) column.name := by
  have inBlock {link : Link} (mem : link ∈ seen) : link.hop ∈ block.traversals := by
    rw [← hops]
    exact List.mem_map_of_mem (mem_append_left _ mem)
  have found {link : Link} (mem : link ∈ seen) : (block.lineFrame env picks db seen assignment).lookup
          (.relation (env.rowSetName link.hop.nodeAlias)) =
        some (hopRow picks link.hop db (db.keyOf (assignment link.hop.joinFrom))
          (assignment link.hop.edgeAlias, assignment link.hop.nodeAlias)) := by
    have notStart : Row.relation (env.rowSetName link.hop.nodeAlias) ≠
        .relation (env.rowSetName block.start.aliasName) := by
      intro same
      exact line.bound.start_ne_node (inBlock mem) (rowSetName_injective _ (Row.relation.inj same)).symm
    rw [lineFrame, lookup_cons, beq_false_of_ne notStart]
    refine lookup_map_of_mem (fun link : Link => Row.relation (env.rowSetName link.hop.nodeAlias))
      (fun link => hopRow picks link.hop db (db.keyOf (assignment link.hop.joinFrom))
        (assignment link.hop.edgeAlias, assignment link.hop.nodeAlias)) mem
      fun other inSeen same => ?_
    have sameName := rowSetName_injective _ (Row.relation.inj same)
    rw [line.bound.hop_eq (inBlock inSeen) (inBlock mem) other.hop.nodeAlias (by simp) (by simp [sameName])]
  have apart {link : Link} (mem : link ∈ seen) : (hopPortions picks link.hop (assignment link.hop.joinFrom)
        (assignment link.hop.edgeAlias, assignment link.hop.nodeAlias)).Pairwise Portion.Apart := by
    obtain ⟨before, later, rfl⟩ := append_of_mem mem
    rw [append_assoc, cons_append] at hops
    exact line.hopPortions_apart hops _ _
  cases owned with
  | start =>
    refine ⟨block.startRow picks db (assignment block.start.aliasName), ?_, ?_⟩
    · rw [lineFrame, lookup_cons_self]
    · exact fun column carried => field_carry_self carried
  | edge mem =>
    refine ⟨_, found mem, fun column carried => ?_⟩
    rw [hopRow_eq_row]
    exact field_row db (apart mem) (edge_mem_hopPortions ..) carried
  | node mem =>
    refine ⟨_, found mem, fun column carried => ?_⟩
    rw [hopRow_eq_row]
    exact field_row db (apart mem) (node_mem_hopPortions ..) carried

omit [DecidableEq ν] in
/-- The next row set is not yet among those that are joined. -/
theorem lookup_lineFrame_next (hops : (seen ++ link :: rest).map hop = block.traversals)
    (env : Setting) (db : Engine ν) (assignment : Assignment ν) :
    (block.lineFrame env picks db seen assignment).lookup (.relation (env.rowSetName link.hop.nodeAlias)) = none := by
  have continues := line.continues hops
  have apart {aliasName : String} (mem : aliasName ∈ block.aliasesAlong seen) :
      env.rowSetName link.hop.nodeAlias ≠ env.rowSetName aliasName :=
    fun same => continues.ne_node mem (rowSetName_injective _ same.symm)
  rw [lookup_eq_none_iff]
  intro entry mem
  rcases List.mem_cons.mp mem with rfl | ofHop
  · simpa using apart List.mem_cons_self
  · obtain ⟨other, inSeen, rfl⟩ := List.mem_map.mp ofHop
    simpa using apart (node_mem_aliasesAlong inSeen)

/-- The rows of a hop that start from where an assignment has arrived. -/
theorem filter_linkRows (unique : world.UniqueNodes) (hops : (seen ++ link :: rest).map hop = block.traversals)
    (mem : assignment ∈ block.assignments env picks early world seen) :
    (block.linkRows env picks world (block.reached env picks early world seen) link).filter (fun row =>
          world.db.carriedKey link.hop.joinFrom row = world.db.keyOf (assignment link.hop.joinFrom)) =
      (block.connections env picks link.hop link.placed world
        (world.db.keyOf (assignment link.hop.joinFrom))).map (hopRow picks link.hop world.db
            (world.db.keyOf (assignment link.hop.joinFrom))) := by
  have keyed : ∀ key ∈ block.reached env picks early world seen,
      ∀ row ∈ (block.connections env picks link.hop link.placed world key).map (hopRow picks link.hop world.db key),
        world.db.carriedKey link.hop.joinFrom row = key := by
    intro key _ row ofKey
    obtain ⟨pair, -, rfl⟩ := Multiset.mem_map.mp ofKey
    exact carriedKey_hopRow ..
  have inReached := line.keyOf_mem_reached hops mem
  rw [← (line.continues hops).joinFrom] at inReached
  have distinct : ((block.reached env picks early world seen).map id).Nodup := by
    rw [Multiset.map_id]
    exact nodup_reached unique
  exact filter_bind_eq_of_key distinct keyed inReached

/-- The row set of a hop is joined to an assignment by its connections. -/
theorem extend_rejoin (typed : world.Typed) (unique : world.UniqueNodes)
    (hops : (seen ++ link :: rest).map hop = block.traversals)
    (declared : world.relations (env.rowSetName link.hop.nodeAlias) =
      block.linkRows env picks world (block.reached env picks early world seen) link)
    (mem : assignment ∈ block.assignments env picks early world seen) :
    (rowSetJoin env picks link.hop).extend world (block.lineFrame env picks world.db seen assignment) =
      ((block.connections env picks link.hop link.placed world
        (world.db.keyOf (assignment link.hop.joinFrom))).map (assignment.extend link.hop)).map
            (block.lineFrame env picks world.db (seen ++ [link])) := by
  have continues := line.continues hops
  have join : rowSetJoin env picks link.hop =
      { kind := .inner
        source := .relation (env.rowSetName link.hop.nodeAlias) none
        conditions :=
          (NodeKey.carried (.relation (env.rowSetName link.hop.nodeAlias)) link.hop.joinFrom).same
            (.carried (.relation (env.rowSetName link.hop.joinFrom)) link.hop.joinFrom) } := by
    simp [rowSetJoin, Setting.hopName, line.counts, line.required _ continues.mem]
  obtain ⟨origin, atEnd, fields⟩ := line.lookup_lineFrame env hops (OwnedAlong.ofEnd block seen) world.db assignment
  have key : world.db.carriedKey link.hop.joinFrom origin = world.db.keyOf (assignment link.hop.joinFrom) := by
    rw [continues.joinFrom]
    exact Prod.ext (fields .id (line.fit.id _)) (fields .kind (line.fit.kind _ (line.elementOf_end hops)))
  have isText : world.db.IsTextKey (world.db.carriedKey link.hop.joinFrom origin) := by
    rw [key, continues.joinFrom]
    exact isTextKey_of_mem_assignments typed mem
  rw [← continues.joinFrom] at atEnd
  rw [join]
  change Join.matching _ _ _ = _
  rw [Join.matching_sameKey .inner (line.lookup_lineFrame_next hops env _ assignment) atEnd isText,
    declared, key, line.filter_linkRows unique hops mem, Multiset.map_map, Multiset.map_map]
  refine Multiset.map_congr rfl fun pair _ => ?_
  rw [Function.comp_apply, Function.comp_apply, continues.lineFrame_extend]

/-- Joining the row sets again finds the assignments. -/
theorem extendAll_rejoin (typed : world.Typed) (unique : world.UniqueNodes)
    (hops : (seen ++ rest).map hop = block.traversals)
    (declares : block.Declares env picks early world (seen ++ rest)) :
    Join.extendAll world (rest.map fun link => rowSetJoin env picks link.hop)
        ((block.assignments env picks early world seen).map (block.lineFrame env picks world.db seen)) =
      (block.assignments env picks early world (seen ++ rest)).map
        (block.lineFrame env picks world.db (seen ++ rest)) := by
  induction rest generalizing seen with
  | nil => simp [Join.extendAll]
  | cons link later ih =>
    have declared := declares.hops seen link (by simp)
    have step : ((block.assignments env picks early world seen).map
        (block.lineFrame env picks world.db seen)).bind ((rowSetJoin env picks link.hop).extend world) =
        (block.assignments env picks early world (seen ++ [link])).map
          (block.lineFrame env picks world.db (seen ++ [link])) := by
      rw [assignments_concat, Multiset.map_bind, bind_map]
      exact Multiset.bind_congr fun assignment mem => line.extend_rejoin typed unique hops declared mem
    rw [append_cons] at hops declares ⊢
    rw [List.map_cons, Join.extendAll, step]
    exact ih hops declares

end Line

end Block

end GraphSql
