import GraphSql.Proofs.Compile

namespace GraphSql

open List Traced

variable {vector : VectorSearch} {σ : Type}

namespace Predicate

theorem containsSimilarity_iff (predicate : Predicate σ) : predicate.containsSimilarity = true ↔
      predicate.topSimilarities ≠ [] ∨ predicate.hasNestedSimilarity = true := by
  constructor
  · intro contains
    by_contra neither
    rw [not_or, not_not, Bool.not_eq_true] at neither
    rw [containsSimilarity_eq_false predicate neither.1 neither.2] at contains
    contradiction
  · induction predicate with
    | and operands ih =>
      simp only [topSimilarities, topSimilaritiesOf_eq_flatMap, hasNestedSimilarity,
        hasNestedSimilarityIn_eq_any, containsSimilarity, anyPart, isSimilarity, anyPartOf_eq_any,
        ne_eq, flatMap_eq_nil_iff, any_eq_true, Bool.false_or, not_forall] at ih ⊢
      rintro (⟨operand, mem, top⟩ | ⟨operand, mem, inner⟩)
      · exact ⟨operand, mem, ih operand mem (.inl top)⟩
      · exact ⟨operand, mem, ih operand mem (.inr inner)⟩
    | _ => simp [topSimilarities, hasNestedSimilarity, containsSimilarity, anyPart, isSimilarity, anyPartOf_eq_any]

end Predicate

/-- The row set of an alias adds the parts of a search to what it reads otherwise. -/
structure RowSet.Adds (env : Setting) (aliasName : String) (parts : VectorParts)
    (rowSet : RowSet Statement) : Prop where
  name : rowSet.name = env.rowSetName aliasName
  member : ∃ select, rowSet.members = [select] ∧ parts.joins <:+ select.joins ∧
    parts.columns <:+ select.columns ∧ parts.conditions <:+ select.conditions

/-- The row set joins the embeddings of the property that is searched and measures the distance. -/
structure RowSet.Measures (env : Setting) (vector : VectorSearch) (rowSet : RowSet Statement) : Prop where
  adds : rowSet.Adds env vector.aliasName vector.parts
  join : ∃ join ∈ vector.parts.joins, join.source = .table .embeddings ∧
    .equal (.column .embedding "node_id") NodeKey.node.id ∈ join.conditions ∧
    .equal (.column .embedding "field_path") (.text vector.pointer.display) ∈ join.conditions
  column : .named (.distance vector.search.metric (.column .embedding "embedding")
    (.text (Dialect.embeddingText vector.search.embedding))) (distanceName vector.aliasName) ∈ vector.parts.columns

theorem RowSet.Adds.measures {env : Setting} {rowSet : RowSet Statement}
    (adds : rowSet.Adds env vector.aliasName vector.parts) :
    rowSet.Measures env vector where
  adds := adds
  join := ⟨_, mem_cons_self, rfl, by simp, by simp⟩
  column := mem_cons_self

/-- The search is made: the row set of its alias measures the distance, and the result is ordered by
the distance and has no more rows than neighbours are searched. -/
structure Level.Searches (env : Setting) (vector : VectorSearch) (level : Level Statement) : Prop where
  rowSet : ∃ rowSet ∈ level.rowSets, rowSet.Measures env vector
  orderBy : ∃ relation, level.select.orderBy.head? =
    some ⟨.column (.relation relation) (distanceName vector.aliasName), .ascending, none⟩
  bounds : ∃ limit offset, level.select.bounds = some ⟨some limit, offset⟩ ∧ limit ≤ vector.search.count

namespace Output

variable {output : Output} {aliasName : String} {count : UInt64}

theorem orderBy_nearest (nearest : output.nearest = some (aliasName, count)) (orders : List Order) :
    Returns (output.orderBy orders) fun keys => ∃ relation, keys.head? =
      some ⟨.column (.relation relation) (distanceName aliasName), .ascending, none⟩ := by
  unfold orderBy distance
  simp only [nearest, returns_bind]
  cases output.relations.find? aliasName with
  | none => trivial
  | some carried =>
    simp only [returns_ok, returns_pure]
    exact returns_all fun _ => ⟨carried.relation, rfl⟩

theorem bounds_nearest (nearest : output.nearest = some (aliasName, count)) (block : Block σ) :
    ∃ limit ≤ count, output.bounds block = some ⟨some limit, block.offset⟩ := by
  cases found : block.limit with
  | none => exact ⟨count, UInt64.le_refl count, by simp [bounds, nearest, found]⟩
  | some limit => exact ⟨min count limit, Std.min_le_left, by simp [bounds, nearest, found]⟩

end Output

namespace Block

variable {block : Block Nested} {env : Setting} {picks : Decisions}

theorem hopRowSets_add (uncounted : picks.counts = none) (hops : List Traversal) :
    Returns (block.hopRowSets env picks hops).result fun rowSets =>
      ∀ hop ∈ hops, ∃ rowSet ∈ rowSets, rowSet.Adds env hop.nodeAlias (picks.vectorParts hop.nodeAlias) := by
  induction hops with
  | nil => simp [hopRowSets]
  | cons hop later ih =>
    simp only [hopRowSets, uncounted, hopRowSet, result_bind, result_pure, returns_bind, returns_ok]
    refine returns_all fun conditions => ih.imp fun rowSets each => ?_
    refine forall_mem_cons.mpr ⟨⟨_, mem_cons_self, rfl, _, rfl, ?_, ?_, ?_⟩, ?_⟩
    · exact suffix_append _ _
    · exact suffix_append _ _
    · exact suffix_append _ _
    · intro other mem
      obtain ⟨rowSet, member, adds⟩ := each other mem
      exact ⟨rowSet, mem_cons_of_mem _ member, adds⟩

theorem startRowSet_adds : Returns (block.startRowSet env picks).result (RowSet.Adds env block.start.aliasName
      (picks.vectorParts block.start.aliasName)) := by
  simp only [startRowSet, result_bind, result_pure, returns_bind, returns_ok]
  exact returns_all fun placed => ⟨rfl, _, rfl, suffix_refl _, suffix_append _ _, suffix_append _ _⟩

theorem chainSelect_searches (found : picks.vector = some vector) :
    Returns (block.chainSelect env picks).result fun select =>
      (∃ relation, select.orderBy.head? =
        some ⟨.column (.relation relation) (distanceName vector.aliasName), .ascending, none⟩) ∧
      ∃ limit ≤ vector.search.count, select.bounds = some ⟨some limit, block.offset⟩ := by
  have nearest : (block.chainOutput env picks).nearest =
      some (vector.aliasName, vector.search.count) := by simp [chainOutput, found]
  rw [result_chainSelect]
  simp only [returns_bind, returns_pure]
  refine returns_all fun _ => returns_all fun _ => returns_all fun _ => returns_all fun _ => ?_
  apply (Output.orderBy_nearest nearest block.orderBy).imp
  exact fun _ ordered => ⟨ordered, Output.bounds_nearest nearest block⟩

theorem chainLevel_searches {opts : Options} (node : block.elementOf vector.aliasName = .node)
    (mem : vector.aliasName ∈ block.aliases) :
    Returns (block.chainLevel env (block.chainDecisions opts (some vector))).result (Level.Searches env vector) := by
  have uncounted : (block.chainDecisions opts (some vector)).counts = none := by
    cases found : (block.chainDecisions opts (some vector)).counts with
    | none => rfl
    | some counts =>
      obtain ⟨-, -, -, unsearched, -⟩ := (block.chainDecisions_shortcuts opts (some vector)).counts counts found
      cases unsearched
  have parts : (block.chainDecisions opts (some vector)).vectorParts vector.aliasName =
      vector.parts := by simp [Decisions.vectorParts, chainDecisions]
  simp only [chainLevel, result_bind, result_pure, returns_bind, returns_ok]
  apply startRowSet_adds.imp
  intro start startAdds
  apply (hopRowSets_add uncounted block.traversals).imp
  intro hops hopsAdd
  apply (chainSelect_searches rfl).imp
  rintro select ⟨orderBy, limit, most, bounds⟩
  refine ⟨?_, orderBy, limit, block.offset, bounds, most⟩
  cases block.place vector.aliasName with
  | start name => exact ⟨start, mem_cons_self, RowSet.Adds.measures (parts ▸ name ▸ startAdds)⟩
  | node hop member name =>
    obtain ⟨rowSet, inHops, adds⟩ := hopsAdd hop member
    exact ⟨rowSet, mem_cons_of_mem _ inHops, RowSet.Adds.measures (parts ▸ name ▸ adds)⟩
  | edge _ _ _ _ element =>
    rw [element] at node
    contradiction
  | unbound absent => contradiction

/-- The query as its route takes it: a walk of one step is a plain hop. -/
def routed (block : Block σ) : Block σ := if block.isSingleHop then block.withoutWalks else block

theorem routed_of_noWalk {block : Block σ} (noWalk : block.isWalk = false) : block.routed = block := by
  unfold routed isSingleHop
  split
  · next hop found =>
    have plain : hop.walk = none := by simpa [isWalk, found] using noWalk
    simp [plain]
  · rfl

/-- A query searches only where its route finds the search, and then the level makes it. Walks do
not search. -/
structure MakesSearches (block : Block Nested) (env : Setting) (level : Level Statement) : Prop where
  walk : block.isWalk = true → block.isSingleHop = false → block.searches = []
  found : ∃ vector : Option VectorSearch, (block.routed.analyzeReferences env.opts.dialect).result = .ok vector ∧
    block.searches = vector.toList.map VectorSearch.search ∧
    ∀ search ∈ vector, level.Searches env search

theorem analyzeReferences_searches (block : Block σ) (dialect : Dialect) :
    Returns (block.analyzeReferences dialect).result fun vector =>
      block.searches = vector.toList.map VectorSearch.search := by
  apply (block.analyzeReferences_atTop dialect).imp
  rintro vector ⟨atTop, single⟩
  have having : block.having.toList.flatMap Predicate.searches = [] :=
    flatMap_eq_nil_iff.mpr fun predicate mem =>
      Predicate.containsSimilarity_eq_false_iff.mp (atTop.having predicate (Option.mem_toList.mp mem))
  rw [← single, searches, having, append_nil]
  exact flatMap_congr fun filter mem => (Predicate.topSimilarities_eq_searches (atTop.filters filter mem)).symm

theorem searchedChain_searches {vector : Option VectorSearch}
    (searched : (block.analyzeReferences env.opts.dialect).result = .ok vector) :
    Returns (block.chainLevel env (block.chainDecisions env.opts vector)).result
      fun level => ∀ search ∈ vector, level.Searches env search := by
  cases vector with
  | none => exact returns_all fun _ _ found => by cases found
  | some vector =>
    obtain ⟨node, mem⟩ := ((block.analyzeReferences_ensures _).of_ok searched).2 vector rfl
    apply (chainLevel_searches node mem).imp
    rintro level searches _ ⟨⟩
    exact searches

theorem compile_makesSearches (block : Block Nested) (env : Setting) :
    Returns (block.compile env).result fun compiled => block.MakesSearches env compiled.1 := by
  have all (block : Block Nested) {vector : Option VectorSearch}
      (searched : (block.analyzeReferences env.opts.dialect).result = .ok vector) :
      block.searches = vector.toList.map VectorSearch.search :=
    (block.analyzeReferences_searches _).of_ok searched
  refine compile_returns (block.MakesSearches env) (fun single vector searched => ?_)
    (fun notSingleHop _ searched => ?_) (fun noWalk vector searched => ?_)
  · have same : block.routed = block.withoutWalks := by simp [routed, single]
    refine (searchedChain_searches searched).imp fun level made =>
      ⟨by simp [single], vector, ?_, all block.withoutWalks searched, made⟩
    rw [same, searched]
  · have same : block.routed = block := by simp [routed, notSingleHop]
    refine returns_all fun level => ⟨fun _ _ => all block searched, none, ?_, all block searched, by simp⟩
    rw [same, searched]
  · refine (searchedChain_searches searched).imp fun level made =>
      ⟨by simp [noWalk], vector, ?_, all block searched, made⟩
    rw [routed_of_noWalk noWalk, searched]

end Block

/-- No search is dropped. The passes over a predicate find each search of it, and those at its top
are all if none stands under a disjunction or a negation. So a query that compiles searches at most
once, and its statement makes the search that was found; a query of walks does not search. -/
theorem searches_are_made :
    (∀ (σ : Type) (predicate : Predicate σ),
      (predicate.containsSimilarity = true ↔
        predicate.topSimilarities ≠ [] ∨ predicate.hasNestedSimilarity = true) ∧
      (predicate.hasNestedSimilarity = false → predicate.topSimilarities = predicate.searches)) ∧
    ∀ (block : Block Nested) (env : Setting) (level : Level Statement) (plan : Plan),
      (block.compile env).result = .ok (level, plan) → block.MakesSearches env level :=
  ⟨fun _ predicate => ⟨predicate.containsSimilarity_iff, Predicate.topSimilarities_eq_searches⟩,
    fun block env _ _ compiled => (block.compile_makesSearches env).of_ok compiled⟩

/-- The pictures with a title that are nearest to an embedding. -/
def nearestPictures : Block Nested where
  start := { aliasName := "p", kinds := ["picture"] }
  filters := [⟨"p", .node, .and [.nullCheck (.ofProperty "p" "title") .isNotNull, .similarity
    { field := .ofProperty "p" "content", embedding := [0.5, 0.25], metric := .cosine, count := 3 }]⟩]

theorem nearestPictures_searched :
    ∃ level plan, (nearestPictures.compile ⟨{}, "album", ""⟩).result = .ok (level, plan) ∧
      nearestPictures.MakesSearches ⟨{}, "album", ""⟩ level :=
  ⟨_, _, rfl, searches_are_made.2 nearestPictures _ _ _ rfl⟩

end GraphSql
