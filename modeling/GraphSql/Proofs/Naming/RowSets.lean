import GraphSql.Proofs.Compounds.Members
import GraphSql.Proofs.Isolation.Confinement
import GraphSql.Proofs.Naming.Columns

namespace GraphSql

open Block List Nat Text Traced

variable {tag : String} {σ : Type}

/-- The names of the row sets of a level. -/
def Level.rowSetNames (level : Level σ) : List String := level.rowSets.map RowSet.name

theorem Text.lowerAscii_append (first second : String) :
    lowerAscii (first ++ second) = lowerAscii first ++ lowerAscii second := by
  simp [lowerAscii]

/-- Names of row sets with one tag are compared by their aliases. -/
theorem lowerAscii_rowSetName_inj {first second : String} :
    lowerAscii (rowSetName tag first) = lowerAscii (rowSetName tag second) ↔ lowerAscii first = lowerAscii second := by
  rw [rowSetName, rowSetName, lowerAscii_append, lowerAscii_append _ second, String.append_right_inj]

theorem nodup_rowSetNames {aliases : List String} :
    ((aliases.map (rowSetName tag)).map lowerAscii).Nodup ↔ (aliases.map lowerAscii).Nodup := by
  simp [List.Nodup, pairwise_map, lowerAscii_rowSetName_inj]

/-- The tags of row sets: a leaf of a compound whose row sets move to the front is told apart by its
position. -/
def IsRowSetTag (tag : String) : Prop := tag = "" ∨ ∃ index, tag = leafTag .hoisted index

theorem isRowSetTag_leafTag (strategy : CompoundStrategy) (index : Nat) : IsRowSetTag (leafTag strategy index) := by
  cases strategy with
  | hoisted => exact .inr ⟨index, rfl⟩
  | parenthesized => exact .inl rfl

/-- The name is one that a row set can have, up to letter case. -/
def IsRowSetName (name : String) : Prop :=
  ∃ tag, IsRowSetTag tag ∧ (sameUnquoted name (tag ++ "recursive_cte") = true ∨
      ∃ aliasName, sameUnquoted name (rowSetName tag aliasName) = true)

theorem isRowSetName_rowSetName (isTag : IsRowSetTag tag) (aliasName : String) :
    IsRowSetName (rowSetName tag aliasName) :=
  ⟨tag, isTag, .inr ⟨aliasName, beq_self_eq_true _⟩⟩

/-- Names of row sets begin with one of three letters. -/
theorem IsRowSetName.head {name : String} (isName : IsRowSetName name) :
    (lowerAscii name).toList.head? ∈ [some 'c', some 'r', some 's'] := by
  obtain ⟨tag, isTag, same⟩ := isName
  have begins : ∀ rest letter, rest.toList.head? = some letter → letter.toLower ∈ ['c', 'r'] →
      (lowerAscii (tag ++ rest)).toList.head? ∈ [some 'c', some 'r', some 's'] := by
    intro rest letter first small
    rcases isTag with rfl | ⟨index, rfl⟩
    · rw [String.empty_append, toList_lowerAscii, List.head?_map, first]
      rcases mem_pair.mp small with same | same
      · simp [same]
      · simp [same]
    · have tag : leafTag .hoisted index = "s" ++ toString index ++ "_" := rfl
      simp [tag]
  rcases same with walk | ⟨aliasName, carried⟩
  · rw [sameUnquoted, beq_iff_eq] at walk
    rw [walk]
    exact begins _ 'r' rfl (by decide)
  · rw [sameUnquoted, beq_iff_eq] at carried
    rw [carried, rowSetName, String.append_assoc]
    exact begins _ 'c' (by simp) (by decide)

/-- No table is named like a row set. -/
def Schema.IsPlain (schema : Schema) : Prop := ∀ table, ¬ IsRowSetName (schema.tableName table).text

/-- The default tables are not named like row sets. -/
theorem Schema.isPlain_default : ({} : Schema).IsPlain := by
  intro table isName
  have head := isName.head
  revert head
  cases table <;> decide

/-- No row set is defined twice in a WITH clause, and none of them hides a table. -/
structure Hygienic (schema : Schema) (names : List String) : Prop where
  distinct : (names.map Text.lowerAscii).Nodup
  tables : ∀ name ∈ names, ∀ table, sameUnquoted name (schema.tableName table).text = false

theorem Schema.IsPlain.hygienic {schema : Schema} (plain : schema.IsPlain) {names : List String}
    (areNames : ∀ name ∈ names, IsRowSetName name) (distinct : (names.map lowerAscii).Nodup) :
    Hygienic schema names := by
  refine ⟨distinct, fun name mem table => ?_⟩
  rw [Bool.eq_false_iff]
  intro same
  obtain ⟨tag, isTag, named⟩ := areNames name mem
  rw [sameUnquoted, beq_iff_eq] at same
  simp only [sameUnquoted, same] at named
  exact plain table ⟨tag, isTag, named⟩

variable {level : Level Statement} {vector : Option VectorSearch}

namespace Block

variable {block : Block Nested} {env : Setting} {picks : Decisions}

/-- The counts that a chain is computed from. -/
def chainCounts (dialect : Dialect) (block : Block σ) : Option Counts :=
  (block.findSimilarity dialect).toOption.bind (block.counts block.placements)

/-- The counts that a query is computed from. A walk of more than one step is not. -/
def countsOf (dialect : Dialect) (block : Block σ) : Option Counts :=
  if block.isWalk && !block.isSingleHop then none else block.chainCounts dialect

theorem counts_withoutWalks (block : Block σ) (placements : List (Option String)) (vector : Option VectorSearch) :
    block.withoutWalks.counts placements vector = block.counts placements vector := by
  unfold Block.counts
  cases found : block.traversals with
  | nil => simp [withoutWalks, found]
  | cons hop rest =>
    cases rest with
    | nil =>
      have traversals : block.withoutWalks.traversals = [{ hop with walk := none }] := by simp [withoutWalks, found]
      rw [traversals]
      rfl
    | cons next others => simp [withoutWalks, found]

theorem chainCounts_withoutWalks (block : Block σ) (dialect : Dialect) :
    block.withoutWalks.chainCounts dialect = block.chainCounts dialect := by
  simp only [chainCounts, findSimilarity_withoutWalks, placements_withoutWalks]
  congr 1
  funext vector
  exact block.counts_withoutWalks block.placements vector

theorem countsOf_eq_chainCounts {block : Block σ} (dialect : Dialect)
    (route : block.isSingleHop = true ∨ block.isWalk = false) :
    block.countsOf dialect = block.chainCounts dialect := by
  unfold countsOf
  rcases route with single | noWalk
  · simp [single]
  · simp [noWalk]

theorem countsOf_withoutWalks {block : Block σ} (single : block.isSingleHop = true)
    (dialect : Dialect) : block.withoutWalks.countsOf dialect = block.countsOf dialect := by
  have noWalk : block.withoutWalks.isWalk = false := by simp [isWalk, withoutWalks]
  rw [countsOf_eq_chainCounts dialect (.inr noWalk), countsOf_eq_chainCounts dialect (.inl single),
    chainCounts_withoutWalks]

/-- The start of the query is not named like the counts that it is computed from. -/
def CountsApart (dialect : Dialect) (block : Block σ) : Prop :=
  ∀ counts ∈ block.countsOf dialect, sameUnquoted counts.aliasName block.start.aliasName = false

/-- Row sets are named after the hops that make them. -/
theorem hopRowSets_names (hops : List Traversal) : Returns (block.hopRowSets env picks hops).result fun rowSets =>
      rowSets.map RowSet.name = hops.map (env.hopName picks) := by
  have hopName (hop : Traversal) (later : List Traversal) :
      Returns (block.hopRowSet env picks hop later).result fun rowSet => rowSet.name = env.rowSetName hop.nodeAlias :=
    hopRowSet_outputs.imp fun _ spec => spec.1
  have countName (hop : Traversal) (counts : Counts) :
      Returns (block.countRowSet env picks hop counts).result fun rowSet =>
        rowSet.name = env.rowSetName counts.aliasName := by
    unfold countRowSet
    simp only [result_bind, result_pure, returns_bind]
    exact returns_all fun _ => rfl
  induction hops with
  | nil => rfl
  | cons hop later ih =>
    have named : Returns (block.rowSetOf env picks hop later).result fun rowSet =>
        rowSet.name = env.hopName picks hop := by
      unfold rowSetOf Setting.hopName
      cases picks.counts with
      | none => exact hopName hop later
      | some counts =>
        dsimp only
        split
        · exact countName hop counts
        · exact hopName hop later
    simp only [result_hopRowSets_cons, returns_bind, returns_ok, map_cons]
    exact named.imp fun _ name => ih.imp fun _ names => by rw [name, names]

/-- A chain declares the row set of its start and those of its hops. -/
theorem chainLevel_names : Returns (block.chainLevel env picks).result fun level =>
      level.rowSetNames = env.rowSetName block.start.aliasName :: block.traversals.map (env.hopName picks) := by
  simp only [chainLevel, result_bind, result_pure, returns_bind, returns_ok]
  apply startRowSet_outputs.imp
  rintro start ⟨startName, -⟩
  apply (hopRowSets_names block.traversals).imp
  intro hops names
  refine returns_all fun select => ?_
  rw [Level.rowSetNames, map_cons, startName, names]

/-- Different aliases make different names, and the alias of counts is the only one that the query
does not bind itself. -/
theorem nodup_chainNames (bound : block.Bound) (found : block.findSimilarity env.opts.dialect = .ok vector) :
    ((env.rowSetName block.start.aliasName :: block.traversals.map
        (env.hopName (block.chainDecisions env.opts vector))).map lowerAscii).Nodup ↔
      ∀ counts ∈ block.chainCounts env.opts.dialect, sameUnquoted counts.aliasName block.start.aliasName = false := by
  have decided : (block.chainDecisions env.opts vector).counts = block.chainCounts env.opts.dialect := by
    rw [chainCounts, found]
    rfl
  cases counted : block.chainCounts env.opts.dialect with
  | none =>
    have names : env.rowSetName block.start.aliasName :: block.traversals.map
        (env.hopName (block.chainDecisions env.opts vector)) =
        (block.start.aliasName :: block.traversals.map Traversal.nodeAlias).map (rowSetName env.tag) := by
      rw [map_cons, map_map]
      refine congrArg _ (map_congr_left fun hop _ => ?_)
      rw [Setting.hopName, decided, counted]
      rfl
    have distinct : ((block.start.aliasName :: block.traversals.map Traversal.nodeAlias).map lowerAscii).Nodup := by
      refine bound.fresh.distinct.sublist (List.Sublist.map _ (List.Sublist.cons_cons _ ?_))
      rw [map_eq_flatMap]
      exact List.Sublist.flatMap_right _ fun hop _ => by simp [Traversal.names]
    rw [names, nodup_rowSetNames]
    exact ⟨fun _ counts none => absurd none (by simp), fun _ => distinct⟩
  | some counts =>
    rw [counted] at decided
    obtain ⟨hop, traversals, nodeAlias, -⟩ := counts_spec decided
    have names : env.rowSetName block.start.aliasName :: block.traversals.map
        (env.hopName (block.chainDecisions env.opts vector)) =
        [block.start.aliasName, counts.aliasName].map (rowSetName env.tag) := by
      rw [traversals, map_singleton, Setting.hopName, decided]
      dsimp only
      rw [if_pos nodeAlias]
      rfl
    rw [names, nodup_rowSetNames]
    simp only [map_cons, map_nil, nodup_cons, mem_singleton, not_mem_nil,
      not_false_eq_true, nodup_nil, and_true, Option.mem_def, Option.some.injEq, forall_eq',
      sameUnquoted, beq_eq_false_iff_ne, ne_eq]
    exact not_congr eq_comm

/-- What the names of the row sets of a level promise. -/
structure NamesRowSets (opts : Options) (block : Block Nested) (level : Level Statement) : Prop where
  distinct : (level.rowSetNames.map Text.lowerAscii).Nodup ↔ block.CountsApart opts.dialect
  hygienic : opts.schema.IsPlain → block.CountsApart opts.dialect → Hygienic opts.schema level.rowSetNames

theorem namesRowSets_of {opts : Options}
    (distinct : (level.rowSetNames.map lowerAscii).Nodup ↔ block.CountsApart opts.dialect)
    (areNames : ∀ name ∈ level.rowSetNames, IsRowSetName name) : block.NamesRowSets opts level :=
  ⟨distinct, fun plain apart => plain.hygienic areNames (distinct.mpr apart)⟩

variable (isTag : IsRowSetTag env.tag)

include isTag

theorem isRowSetName_hopName (picks : Decisions) (hop : Traversal) : IsRowSetName (env.hopName picks hop) := by
  unfold Setting.hopName
  split
  · exact isRowSetName_rowSetName isTag _
  · exact isRowSetName_rowSetName isTag _

theorem chainLevel_namesRowSets (noWalk : block.isWalk = false)
    (searched : (block.analyzeReferences env.opts.dialect).result = .ok vector) :
    Returns (block.chainLevel env (block.chainDecisions env.opts vector)).result (block.NamesRowSets env.opts) := by
  have bound := ((block.analyzeReferences_ensures env.opts.dialect).of_ok searched).1
  rw [result_analyzeReferences] at searched
  obtain ⟨_, -, found⟩ := exists_of_bind_eq_ok searched
  apply chainLevel_names.imp
  intro level names
  refine namesRowSets_of ?_ ?_
  · rw [names, CountsApart, countsOf_eq_chainCounts _ (.inr noWalk)]
    exact nodup_chainNames bound found
  · rw [names]
    refine forall_mem_cons.mpr ⟨isRowSetName_rowSetName isTag _, fun name mem => ?_⟩
    obtain ⟨hop, -, rfl⟩ := mem_map.mp mem
    exact isRowSetName_hopName isTag _ hop

theorem walkLevel_namesRowSets (notSingleHop : block.isSingleHop = false) (isWalk : block.isWalk = true) :
    Returns (block.walkLevel env picks).result (block.NamesRowSets env.opts) := by
  have uncounted : block.countsOf env.opts.dialect = none := by simp [countsOf, notSingleHop, isWalk]
  unfold walkLevel
  simp only [result_bind, result_pure, returns_bind, returns_ok]
  refine returns_all fun walk => returns_all fun first => ?_
  refine returns_all fun further => returns_all fun select => namesRowSets_of ?_ ?_
  · simp [Level.rowSetNames, CountsApart, uncounted]
  · refine forall_mem_singleton.mpr ⟨env.tag, isTag, .inl ?_⟩
    exact beq_self_eq_true _

theorem compile_namesRowSets : Returns (block.compile env).result fun compiled =>
      block.NamesRowSets env.opts compiled.1 := by
  refine compile_returns (block.NamesRowSets env.opts) (fun single vector searched => ?_)
    (fun notSingleHop isWalk _ => walkLevel_namesRowSets isTag notSingleHop isWalk)
    (fun noWalk _ searched => chainLevel_namesRowSets isTag noWalk searched)
  have noWalk : block.withoutWalks.isWalk = false := by simp [isWalk, withoutWalks]
  apply (chainLevel_namesRowSets isTag noWalk searched).imp
  rintro level ⟨distinct, hygienic⟩
  have same : block.withoutWalks.CountsApart env.opts.dialect ↔ block.CountsApart env.opts.dialect := by
    rw [CountsApart, CountsApart, countsOf_withoutWalks single]
    rfl
  rw [same] at distinct hygienic
  exact ⟨distinct, hygienic⟩

end Block

section Leaves

variable {opts : Options} {graphId : String}

/-- The position of a leaf can be told from the names of its row sets. -/
theorem position_eq_of_rowSetName {first second : Nat} {aliasName other : String}
    (same : lowerAscii (rowSetName (leafTag .hoisted first) aliasName) =
      lowerAscii (rowSetName (leafTag .hoisted second) other)) : first = second := by
  have digits (index : Nat) (aliasName : String) :
      ((lowerAscii (rowSetName (leafTag .hoisted index) aliasName)).toList.drop 1).takeWhile
        Char.isDigit = toDigits 10 index := by
    have tag : leafTag .hoisted index = "s" ++ toString index ++ "_" := rfl
    have areDigits : ∀ digit ∈ toDigits 10 index, digit.isDigit = true :=
      fun digit mem => isDigit_of_mem_toDigits (by decide) (by decide) mem
    have number : (toString index).toList = toDigits 10 index := by simp [toString, Nat.repr]
    rw [toList_lowerAscii, rowSetName, tag]
    simp only [String.toList_append, map_append, number, toLower_toDigits, append_assoc]
    change (toDigits 10 index ++ '_' :: _).takeWhile Char.isDigit = _
    rw [takeWhile_append_of_pos areDigits, takeWhile_cons_of_neg (by decide), append_nil]
  have equal : toDigits 10 first = toDigits 10 second := by rw [← digits first aliasName, same, digits second other]
  rw [← ofDigitChars_ten_toDigits (n := first), equal, ofDigitChars_ten_toDigits]

/-- The leaves of a compound have row sets of different names. -/
theorem nodup_leafNames (dialect : Dialect) (index : Nat) (leaves : List Query) :
    ((leafNames dialect index leaves).map lowerAscii).Nodup := by
  cases dialect with
  | postgres => exact nodup_nil
  | sqlite =>
    have sorted : (leaves.zipIdx index).Pairwise (·.2 < ·.2) := by
      refine pairwise_map.mp ?_
      rw [zipIdx_map_snd]
      exact pairwise_lt_range'
    rw [leafNames]
    dsimp only [Dialect.capabilities]
    rw [map_map]
    refine pairwise_map.mpr (sorted.imp fun {first second} before same => ?_)
    simp only [Function.comp_apply, ← rowSetName_leafTag] at same
    exact absurd (position_eq_of_rowSetName same) (Nat.ne_of_lt before)

theorem isRowSetName_leafNames (dialect : Dialect) (index : Nat) (leaves : List Query) :
    ∀ name ∈ leafNames dialect index leaves, IsRowSetName name := by
  cases dialect with
  | postgres => exact forall_mem_nil _
  | sqlite =>
    intro name mem
    obtain ⟨⟨leaf, index⟩, -, rfl⟩ := mem_map.mp mem
    dsimp only
    rw [← rowSetName_leafTag]
    exact isRowSetName_rowSetName (.inr ⟨index, rfl⟩) _

/-- A leaf whose row sets move to the front keeps none, and it is not computed from counts. -/
theorem Block.Hoistable.namesRowSets {block : Block Nested} (hoistable : block.Hoistable)
    (opts : Options) (select : Select Statement) :
    block.NamesRowSets opts { rowSets := [], select } := by
  have uncounted : block.countsOf opts.dialect = none := by
    have route : block.isSingleHop = true ∨ block.isWalk = false := .inr (by simp [isWalk, hoistable.traversals])
    rw [countsOf_eq_chainCounts _ route, chainCounts]
    cases block.findSimilarity opts.dialect with
    | error error => rfl
    | ok vector =>
      change block.counts block.placements vector = none
      rw [Block.counts, hoistable.traversals]
  refine namesRowSets_of ?_ (forall_mem_nil _)
  simp [Level.rowSetNames, Block.CountsApart, uncounted]

/-- What the names of the row sets of a query promise. -/
def Query.NamesRowSets (opts : Options) (_ : String) (query : Query) (level : Level Statement) : Prop :=
  (query.nested opts).NamesRowSets opts level

theorem Query.compile_namesRowSets (isTag : IsRowSetTag tag) (query : Query) (graphId : String)
    (level : Level Statement) (plan : Plan)
    (compiled : ((query.nested opts).compile { opts, graphId, tag }).result = .ok (level, plan)) :
    query.NamesRowSets opts graphId level := by
  have named : Returns ((query.nested opts).compile { opts, graphId, tag }).result
      fun compiled => (query.nested opts).NamesRowSets opts compiled.1 :=
    Block.compile_namesRowSets isTag
  exact named.of_ok compiled

theorem Query.HasLeafLevel.namesRowSets {query : Query} {index : Nat}
    (hasLevel : query.HasLeafLevel opts graphId index level)
    (movable : Movable opts.dialect [query]) :
    (Statement.mk (level.inCompound opts.dialect)).EachLevel (Query.NamesRowSets opts)
      (query.block.graphId.getD graphId) query := by
  obtain ⟨plan, compiled⟩ := hasLevel
  have isTag := isRowSetTag_leafTag opts.dialect.capabilities.compound index
  have whole : Ensures ((query.nested opts).compile (query.leafSetting opts graphId index)).result fun compiled =>
        (Statement.mk compiled.1).EachLevel (Query.NamesRowSets opts) (query.block.graphId.getD graphId) query :=
    Query.compile_eachLevel (Query.compile_namesRowSets (.inl rfl)) (Query.compile_namesRowSets isTag query _)
  have each := whole.of_ok compiled
  cases known : opts.dialect with
  | postgres => exact each
  | sqlite =>
    refine each.of_selects ((movable.hoistable known).namesRowSets opts level.select) ?_
    exact subset_append_right _ _

theorem leaves_namesRowSets {leaves : List Query} {index : Nat} {levels : List (Level Statement)}
    (hasLevels : List.Forall₂ (fun leaf level => leaf.1.HasLeafLevel opts graphId leaf.2 level)
      (leaves.zipIdx index) levels)
    (movable : Movable opts.dialect leaves) :
    List.Forall₂ (fun leaf level =>
        (Statement.mk level).EachLevel (Query.NamesRowSets opts) (leaf.block.graphId.getD graphId) leaf)
      leaves (levels.map (Level.inCompound opts.dialect)) := by
  induction leaves generalizing index levels with
  | nil =>
    cases hasLevels
    exact .nil
  | cons leaf others ih =>
    rw [zipIdx_cons] at hasLevels
    obtain ⟨level, rest, hasLevel, hasRest, rfl⟩ := forall₂_cons_left_iff.mp hasLevels
    obtain ⟨own, later⟩ := movable.of_cons
    exact .cons (hasLevel.namesRowSets own) (ih hasRest later)

end Leaves

/-- The row sets of each WITH clause have different names, whatever the letter case, if and only if
no query is computed from counts that are named like its start. Then none of them hides a table
either, if no table is named like a row set. Before a compound, the names of row sets are always
different. -/
theorem rowSets_hygienic (opts : Options) (graphId : String) :
    (∀ query statement plan,
      (Query.statement opts graphId query).result = .ok (statement, plan) →
        statement.EachLevel (Query.NamesRowSets opts) graphId query) ∧
      ∀ operation statement plan,
        (SetOperation.statement opts graphId operation).result = .ok (statement, plan) →
          ((statement.rowSets.map RowSet.name).map Text.lowerAscii).Nodup ∧
            (opts.schema.IsPlain →
              Hygienic opts.schema (statement.rowSets.map RowSet.name)) ∧
            List.Forall₂ (fun leaf level =>
                (Statement.mk level).EachLevel (Query.NamesRowSets opts)
                  (leaf.block.graphId.getD graphId) leaf)
              operation.leaves statement.body.levels := by
  constructor
  · intro query statement plan stated
    have made : Ensures (query.statement opts graphId).result fun compiled =>
        compiled.1.EachLevel (Query.NamesRowSets opts) graphId query :=
      Query.statement_eachLevel (Query.compile_namesRowSets (.inl rfl)) query graphId
    exact made.of_ok stated
  · intro operation statement plan stated
    have stands := (operation.statement_standsFor opts graphId).of_ok stated
    obtain ⟨levels, each, body, -⟩ := (operation.statement_levels opts graphId).of_ok stated
    have distinct := nodup_leafNames opts.dialect 0 operation.leaves
    have areNames := isRowSetName_leafNames opts.dialect 0 operation.leaves
    rw [stands.serve.names, body]
    exact ⟨distinct, fun plain => plain.hygienic areNames distinct,
      leaves_namesRowSets each stands.movable⟩

theorem friendCounts_rowSets_hygienic :
    (∃ level plan,
      (friendCounts.statement {} "people").result = .ok (.mk level, plan) ∧
        (friendCounts.nested {}).CountsApart .sqlite ∧ Hygienic {} level.rowSetNames) ∧
      ∃ statement plan,
        (guestList.operation.statement {} "party").result = .ok (statement, plan) ∧
          Hygienic {} (statement.rowSets.map RowSet.name) := by
  refine ⟨?_, ?_⟩
  · have apart : (friendCounts.nested {}).CountsApart .sqlite := by
      rintro counts found
      obtain rfl := Option.some.inj found
      rfl
    refine ⟨_, _, rfl, apart, ?_⟩
    cases (rowSets_hygienic {} "people").1 friendCounts _ _ rfl with
    | mk own => exact own.hygienic Schema.isPlain_default apart
  · obtain ⟨compiled, returned⟩ := guestList.operation_compiles
    obtain ⟨statement, plan, stated, -⟩ := SetOperation.exists_statement _ returned
    refine ⟨statement, plan, stated, ?_⟩
    exact ((rowSets_hygienic {} "party").2 guestList.operation _ _ stated).2.1
      Schema.isPlain_default

/-- The number of acquaintances of each person, who is named like the counts. -/
def selfCounted : Query :=
  .mk { (Block.ofKind "b_counts" "person").traverse
      (.outwardFrom "b_counts" "e" "knows" "b" "person") with
    projection := [⟨"id", .field (.ofColumn "b_counts" "id")⟩, ⟨"known", .aggregate ⟨.count, .ofAlias "b"⟩⟩]
    groupBy := [.ofColumn "b_counts" "id"] }

/-- Nodes are kept in a table that is named like a row set. -/
def eclipsedTable : Options := { schema := { nodes := ⟨"cte_p", rfl⟩ } }

theorem rowSets_collide :
    (∃ level plan,
      (selfCounted.statement {} "people").result = .ok (.mk level, plan) ∧
        level.rowSetNames = ["cte_b_counts", "cte_b_counts"]) ∧
      ∃ level plan,
        ((Query.mk (Block.ofKind "p" "person")).statement eclipsedTable "people").result =
            .ok (.mk level, plan) ∧
          ¬ Hygienic eclipsedTable.schema level.rowSetNames := by
  refine ⟨⟨_, _, rfl, rfl⟩, _, _, rfl, fun hygienic => ?_⟩
  have apart := hygienic.tables "cte_p" List.mem_cons_self .nodes
  revert apart
  decide

section Resolution

/-- The relations of the FROM clause have different names, whatever the letter case. -/
def Select.SourcesApart (select : Select σ) : Prop := (select.reach.map fun row => lowerAscii row.text).Nodup

def RowSet.SourcesApart (rowSet : RowSet σ) : Prop := ∀ member ∈ rowSet.members, member.SourcesApart

/-- Every name of a relation in the level stands for one: for a table, for the one row set that has it, or
for the one relation of its FROM clause. -/
structure Level.Unambiguous (schema : Schema) (level : Level σ) : Prop where
  rowSets : Hygienic schema level.rowSetNames
  sources : ∀ select ∈ level.selects, select.SourcesApart

theorem Decisions.rows_vectorParts (picks : Decisions) (aliasName : String) :
    ((picks.vectorParts aliasName).joins.map fun join => join.source.row) ∈ [[], [Row.embedding]] := by
  unfold vectorParts
  split
  · split
    · exact .tail _ (.head _)
    · exact .head _
  · exact .head _

namespace Block

variable {block : Block Nested} {env : Setting} {picks : Decisions}

theorem startRowSet_sourcesApart : Returns (block.startRowSet env picks).result RowSet.SourcesApart := by
  unfold startRowSet
  simp only [result_bind, result_pure, returns_bind, returns_ok]
  refine returns_all fun _ => forall_mem_singleton.mpr ?_
  rcases mem_pair.mp (picks.rows_vectorParts block.start.aliasName) with same | same <;>
    rw [Select.SourcesApart, Select.reach, same]
  · exact nodup_singleton _
  · exact (by decide : ([Row.node, .embedding].map fun row => lowerAscii row.text).Nodup)

theorem countRowSet_sourcesApart (hop : Traversal) (counts : Counts) :
    Returns (block.countRowSet env picks hop counts).result RowSet.SourcesApart := by
  unfold countRowSet
  simp only [result_bind, result_pure, returns_bind, returns_ok]
  refine returns_all fun _ => forall_mem_singleton.mpr ?_
  exact (by decide : ([Row.edge, .node].map fun row => lowerAscii row.text).Nodup)

theorem hopRowSet_sourcesApart (hop : Traversal) (later : List Traversal) :
    Returns (block.hopRowSet env picks hop later).result RowSet.SourcesApart := by
  have source : (block.hopSource env picks hop).row = .source := by
    unfold hopSource
    split <;> rfl
  unfold hopRowSet
  simp only [result_bind, result_pure, returns_bind, returns_ok]
  refine returns_all fun _ => forall_mem_singleton.mpr ?_
  rw [Select.SourcesApart, Select.reach, map_append, source]
  rcases mem_pair.mp (picks.rows_vectorParts hop.nodeAlias) with same | same <;> rw [same]
  · exact (by decide : ([Row.source, .edge, .node].map fun row => lowerAscii row.text).Nodup)
  · exact (by decide : ([Row.source, .edge, .node, .embedding].map fun row => lowerAscii row.text).Nodup)

/-- The final SELECT reads one row set or all of them. -/
theorem chainSelect_sourcesApart : Returns (block.chainSelect env picks).result fun select =>
    ((env.rowSetName block.start.aliasName :: block.traversals.map (env.hopName picks)).map lowerAscii).Nodup →
      select.SourcesApart := by
  rw [result_chainSelect]
  simp only [returns_bind, returns_pure]
  refine returns_all fun _ => returns_all fun _ => returns_all fun _ => returns_all fun _ => returns_all fun _ => ?_
  intro distinct
  rw [Select.SourcesApart, Select.reach]
  dsimp only
  split
  · exact nodup_singleton _
  · simpa [Function.comp_def, rowSetJoin, Source.row, Row.text] using distinct

/-- A SELECT over tables reads each of them once, after the row set that it starts from. -/
theorem chainLevel_sourcesApart : Returns (block.chainLevel env picks).result fun level =>
      (level.rowSetNames.map lowerAscii).Nodup → ∀ select ∈ level.selects, select.SourcesApart := by
  have whole := chainLevel_returns startRowSet_sourcesApart (fun counts _ hop _ _ => countRowSet_sourcesApart hop counts)
    (fun hop _ => hopRowSet_sourcesApart hop) (@chainSelect_sourcesApart block env picks)
  cases made : (block.chainLevel env picks).result with
  | error error => trivial
  | ok level =>
    intro distinct
    obtain ⟨rowSets, final⟩ := whole.of_ok made
    rw [chainLevel_names.of_ok made] at distinct
    exact forall_mem_append.mpr ⟨forall_mem_flatMap.mpr rowSets, forall_mem_singleton.mpr (final distinct)⟩

/-- A walk reads each relation once. -/
theorem walkLevel_sourcesApart (isWalk : block.isWalk = true) : Returns (block.walkLevel env picks).result fun level =>
      ∀ select ∈ level.selects, select.SourcesApart := by
  have each : Returns (block.walkLevel env picks).result fun level =>
      (∀ rowSet ∈ level.rowSets, rowSet.name = Walk.rowSetName env ∧
        ∀ member ∈ rowSet.members, member.SourcesApart) ∧ level.select.SourcesApart := by
    refine walkLevel_returns isWalk fun walk _ _ => ⟨?_, fun strategy step _ => ?_, ?_⟩
    · unfold Walk.startMember
      simp only [result_bind, result_pure, returns_bind, returns_ok]
      exact returns_all fun _ => nodup_singleton _
    · unfold Walk.stepMember
      simp only [result_bind, result_pure, returns_bind, returns_ok]
      refine returns_all fun _ => ?_
      exact (by decide : ([Row.walk, .edge, .node].map fun row => lowerAscii row.text).Nodup)
    · unfold Walk.select
      simp only [result_bind, result_pure, returns_bind, returns_ok]
      refine returns_all fun _ => returns_all fun _ => returns_all fun _ => returns_all fun _ => returns_all fun _ => ?_
      exact nodup_singleton _
  apply each.imp
  rintro level ⟨rowSets, final⟩
  refine forall_mem_append.mpr ⟨forall_mem_flatMap.mpr fun rowSet mem => (rowSets rowSet mem).2, ?_⟩
  exact forall_mem_singleton.mpr final

/-- If the row sets have different names, no FROM clause has two relations of one name. -/
theorem compile_sourcesApart : Returns (block.compile env).result fun compiled =>
      (compiled.1.rowSetNames.map lowerAscii).Nodup → ∀ select ∈ compiled.1.selects, select.SourcesApart :=
  compile_returns _ (fun _ _ _ => chainLevel_sourcesApart)
    (fun _ isWalk _ => (walkLevel_sourcesApart isWalk).imp fun _ apart _ => apart) fun _ _ _ => chainLevel_sourcesApart

end Block

/-- Names stand for one relation each, if no table is named like a row set and the start of the query is not
named like the counts that it is computed from. -/
def Query.Resolves (opts : Options) (_ : String) (query : Query) (level : Level Statement) : Prop :=
  opts.schema.IsPlain → (query.nested opts).CountsApart opts.dialect → level.Unambiguous opts.schema

theorem Query.compile_resolves {opts : Options} (isTag : IsRowSetTag tag) (query : Query) (graphId : String)
    (level : Level Statement) (plan : Plan)
    (compiled : ((query.nested opts).compile { opts, graphId, tag }).result = .ok (level, plan)) :
    query.Resolves opts graphId level := by
  intro plain apart
  have hygienic := (query.compile_namesRowSets isTag graphId level plan compiled).hygienic plain apart
  have sources : Returns ((query.nested opts).compile { opts, graphId, tag }).result fun compiled =>
      (compiled.1.rowSetNames.map lowerAscii).Nodup → ∀ select ∈ compiled.1.selects, select.SourcesApart :=
    Block.compile_sourcesApart
  exact ⟨hygienic, sources.of_ok compiled hygienic.distinct⟩

/-- Every compiled statement is well scoped, its nested statements included, whatever tag its row sets
have: row sets read tables and earlier row sets, columns are read where they are output, and clauses
name relations that the FROM clause has named before. At each level each of these names has one
declaration, if no table is named like a row set and no start like its counts. -/
theorem compiled_wellScoped (opts : Options) (graphId tag : String) (query : Query) :
    (∀ statement plan, (query.statement opts graphId).result = .ok (statement, plan) →
        statement.WellScoped ∧ statement.EachLevel (Query.Resolves opts) graphId query) ∧
      ∀ level plan,
        ((query.nested opts).compile { opts, graphId, tag }).result = .ok (level, plan) →
          (Statement.mk level).WellScoped ∧
            (IsRowSetTag tag → (Statement.mk level).EachLevel (Query.Resolves opts) graphId query) := by
  constructor
  · intro statement plan compiled
    have each : Ensures (query.statement opts graphId).result fun compiled =>
        compiled.1.EachLevel (Query.Resolves opts) graphId query :=
      Query.statement_eachLevel (Query.compile_resolves (.inl rfl)) query graphId
    exact ⟨(query.statement_ensures opts graphId).of_ok compiled, each.of_ok compiled⟩
  · intro level plan compiled
    have sound := (query.compileBlock_ensures opts { opts, graphId, tag }).of_ok compiled
    refine ⟨(Statement.wellScoped_mk level).mpr sound.1, fun isTag => ?_⟩
    have each : Ensures ((query.nested opts).compile { opts, graphId, tag }).result fun compiled =>
        (Statement.mk compiled.1).EachLevel (Query.Resolves opts) graphId query :=
      Query.compile_eachLevel (Query.compile_resolves (.inl rfl)) (Query.compile_resolves isTag query graphId)
    exact each.of_ok compiled

theorem friendCounts_wellScoped :
    ∃ statement plan level,
      (friendCounts.statement {} "people").result = .ok (statement, plan) ∧
        statement.WellScoped ∧
        ((friendCounts.nested {}).compile
          { opts := {}, graphId := "people", tag := "s1_" }).result = .ok (level, plan) ∧
        (Statement.mk level).WellScoped ∧ level.Unambiguous {} := by
  have stands := compiled_wellScoped {} "people" "s1_" friendCounts
  refine ⟨_, _, _, rfl, (stands.1 _ _ rfl).1, rfl, (stands.2 _ _ rfl).1, ?_⟩
  cases (stands.2 _ _ rfl).2 (.inr ⟨1, rfl⟩) with
  | mk own =>
    refine own Schema.isPlain_default ?_
    rintro counts found
    obtain rfl := Option.some.inj found
    rfl

/-- A name in FROM stands for two row sets, and a table is hidden by the row set that reads it. -/
theorem names_ambiguous :
    (∃ level plan,
      (selfCounted.statement {} "people").result = .ok (.mk level, plan) ∧
        level.select.reach = [.relation "cte_b_counts", .relation "cte_b_counts"] ∧ ¬ level.Unambiguous {}) ∧
      ∃ level plan,
        ((Query.mk (Block.ofKind "p" "person")).statement eclipsedTable "people").result =
            .ok (.mk level, plan) ∧
          ¬ level.Unambiguous eclipsedTable.schema := by
  refine ⟨⟨_, _, rfl, rfl, fun unambiguous => ?_⟩, _, _, rfl, fun unambiguous => ?_⟩
  · have distinct := unambiguous.rowSets.distinct
    revert distinct
    decide
  · have apart := unambiguous.rowSets.tables "cte_p" List.mem_cons_self .nodes
    revert apart
    decide

end Resolution

end GraphSql
