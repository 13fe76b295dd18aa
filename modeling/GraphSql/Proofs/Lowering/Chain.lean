import GraphSql.Proofs.Lowering.Hop
import GraphSql.Proofs.Lowering.Output

namespace GraphSql

open Condition List NodeKey OutputColumn Traced

variable {columns : List String} {rowSet : Declared}
variable {reach : List Visible} {known : List Declared} {holds : Statement → Prop}

/-- The columns by which a node is joined again. -/
structure HasKey (columns : List String) (aliasName : String) : Prop where
  id : carriedName aliasName .id ∈ columns
  kind : carriedName aliasName .kind ∈ columns

namespace Decisions

variable {picks : Decisions}

/-- The columns hold everything that is read of an alias later. -/
structure Supplies (picks : Decisions) (columns : List String) (aliasName : String) : Prop where
  carried : ∀ column ∈ picks.carried aliasName, carriedName aliasName column ∈ columns
  distance : ∀ vector ∈ picks.vector, vector.aliasName = aliasName → distanceName aliasName ∈ columns

theorem Supplies.mono {wider : List String} (included : columns ⊆ wider) {aliasName : String}
    (supplies : picks.Supplies columns aliasName) : picks.Supplies wider aliasName :=
  ⟨fun column member => included (supplies.carried column member),
    fun vector found same => included (supplies.distance vector found same)⟩

theorem Supplies.hasKey {σ : Type} {block : Block σ} (fit : picks.Fit block)
    {aliasName : String} (node : block.elementOf aliasName = .node)
    (supplies : picks.Supplies columns aliasName) : HasKey columns aliasName :=
  ⟨supplies.carried .id (fit.id aliasName), supplies.carried .kind (fit.kind aliasName node)⟩

end Decisions

/-- What a search adds to a row set reads the table of embeddings and the node. -/
structure VectorParts.InReach (parts : VectorParts) (holds : Statement → Prop) (reach : List Visible) : Prop where
  columns : ∀ column ∈ parts.columns, column.InReach reach
  conditions : ∀ condition ∈ parts.conditions, condition.Admits (Reference.InReach reach) holds

theorem VectorSearch.parts_inReach (vector : VectorSearch)
    (embeddings : Table.embeddings.visible ∈ reach) : vector.parts.InReach holds reach := by
  have distanceReads : (Term.distance vector.search.metric (.column .embedding "embedding")
      (.text (Dialect.embeddingText vector.search.embedding))).Reads
      (Reference.InReach reach) := Term.column_reads embeddings (by decide)
  constructor
  · intro column member
    obtain rfl := mem_singleton.mp member
    exact distanceReads
  · intro condition member
    obtain ⟨score, -, rfl⟩ := mem_map.mp member
    exact admits_compare distanceReads (Term.reads_value _) _

theorem VectorSearch.joins_extend (vector : VectorSearch) (nodes : Table.nodes.visible ∈ reach) :
    Join.Extend holds known reach vector.parts.joins (Table.embeddings.visible :: reach) := by
  refine ⟨_, .table .embeddings, ?_, rfl⟩
  have column {name : String} (mem : name ∈ Table.embeddings.columnNames) :
      (Term.column .embedding name).Reads (Reference.InReach (Table.embeddings.visible :: reach)) :=
    Term.column_reads mem_cons_self mem
  have nodes : Table.nodes.visible ∈ Table.embeddings.visible :: reach := mem_cons_of_mem _ nodes
  have readable := Element.readable .node nodes
  have node := node_reads readable
  intro condition member
  simp only [mem_cons, not_mem_nil, or_false] at member
  rcases member with rfl | rfl | rfl | rfl
  · exact admits_equal (column (by decide)) readable.graph
  · exact admits_equal (column (by decide)) node.kind
  · exact admits_equal (column (by decide)) node.id
  · exact admits_equal (column (by decide)) (Term.reads_value _)

/-- Whether or not an alias is searched, its row set stays isScoped and outputs the distance. -/
theorem Decisions.vectorParts_spec (picks : Decisions) (aliasName : String)
    (holds : Statement → Prop) (known : List Declared) (nodes : Table.nodes.visible ∈ reach) :
    ∃ final, Join.Extend holds known reach (picks.vectorParts aliasName).joins final ∧
      (picks.vectorParts aliasName).InReach holds final ∧
      ∀ vector ∈ picks.vector, vector.aliasName = aliasName → distanceName aliasName ∈
          (picks.vectorParts aliasName).columns.flatMap (names final) := by
  unfold vectorParts
  cases found : picks.vector with
  | none => exact ⟨reach, rfl, ⟨by simp, by simp⟩, by simp⟩
  | some vector =>
    by_cases same : vector.aliasName = aliasName
    · subst same
      simp only [if_pos]
      refine ⟨_, vector.joins_extend nodes, vector.parts_inReach mem_cons_self, ?_⟩
      intro _ _ _
      exact mem_singleton_self _
    · simp only [if_neg same]
      refine ⟨reach, rfl, ⟨by simp, by simp⟩, ?_⟩
      intro other member equal
      exact absurd ((Option.some_inj.mp member) ▸ equal) same

namespace Block

variable {block : Block Nested} {picks : Decisions}

theorem startRowSet_ensures (bound : block.Bound) (fit : picks.Fit block)
    (nested : block.NestedEnsures holds) (env : Setting) :
    Ensures (block.startRowSet env picks).result fun rowSet =>
      rowSet.name = env.rowSetName block.start.aliasName ∧ ∃ outputs, rowSet.Scoped holds false known outputs ∧
          picks.Supplies outputs block.start.aliasName := by
  have nodes : Table.nodes.visible ∈ [Table.nodes.visible] := mem_singleton_self _
  obtain ⟨reach, extend, parts, distance⟩ := picks.vectorParts_spec block.start.aliasName holds known nodes
  have nodes := extend.subset nodes
  have readable := Element.readable .node nodes
  unfold startRowSet
  simp only [result_bind, result_pure, ensures_bind]
  apply (lowerPlaced_ensures env.opts.dialect fit.placements (startScope_serves bound readable.column) nested).imp
  intro placed admitted
  refine ⟨rfl, _, ⟨⟨_, reach, .table .nodes, extend, ⟨?_, ?_, by simp, by simp, by simp⟩, rfl⟩, by simp⟩, ?_, ?_⟩
  · refine forall_mem_append.mpr ⟨block.tableColumns_inReach picks ?_, parts.columns⟩
    rw [elementOf_start]
    exact nodes
  · simp only [forall_mem_append]
    have judges := judges_admits (Reference.InReach reach) holds
    exact ⟨⟨⟨judges.startConditions readable block env.graphId trivial,
      judges.visibility block.temporal fit.now readable.column⟩, admitted⟩, parts.conditions⟩
  · intro column carried
    rw [flatMap_append, names_tableColumns]
    exact mem_append_left _ (mem_map_of_mem carried)
  · intro vector found same
    rw [flatMap_append]
    exact mem_append_right _ (distance vector found same)

theorem hopSource_gives (block : Block Nested) (env : Setting) (picks : Decisions)
    (hop : Traversal) (declared : rowSet ∈ known)
    (name : rowSet.name = env.rowSetName hop.joinFrom)
    (key : HasKey rowSet.columns hop.joinFrom) :
    ∃ columns, (block.hopSource env picks hop).Gives known ⟨.source, columns⟩ ∧
      HasKey columns hop.joinFrom ∧ (picks.collapse = true → columns = rowSet.columns) := by
  unfold hopSource
  dsimp only
  rw [← name]
  split
  · exact ⟨rowSet.columns, .renamed declared .source, key, fun _ => rfl⟩
  · next plain =>
    refine ⟨_, .distinct declared .source ?_, ⟨by simp, by simp⟩, fun collapse => ?_⟩
    · intro column member
      rcases mem_pair.mp member with rfl | rfl
      · exact key.id
      · exact key.kind
    · simp [collapse] at plain

theorem handedColumns_spec {hop : Traversal} (visible : ⟨.source, columns⟩ ∈ reach)
    (key : HasKey columns hop.joinFrom) :
    (∀ column ∈ handedColumns picks hop, column.InReach reach) ∧
      HasKey ((handedColumns picks hop).flatMap (names reach)) hop.joinFrom ∧
      (picks.collapse = true → columns ⊆ (handedColumns picks hop).flatMap (names reach)) := by
  unfold handedColumns
  split
  · have handed : columns ⊆ [every .source].flatMap (names reach) := by
      intro column member
      simp only [flatMap_cons, flatMap_nil, append_nil, names]
      exact mem_flatMap.mpr ⟨_, mem_filter.mpr ⟨visible, by simp⟩, member⟩
    refine ⟨?_, ⟨handed key.id, handed key.kind⟩, fun _ => handed⟩
    intro column member
    obtain rfl := mem_singleton.mp member
    exact ⟨_, visible, rfl⟩
  · next plain =>
    have source := carried_inReach visible key.id key.kind
    refine ⟨?_, ⟨mem_cons_self, mem_cons_of_mem _ (mem_singleton_self _)⟩, fun collapse => absurd collapse plain⟩
    intro column member
    rcases mem_pair.mp member with rfl | rfl
    · exact source.id
    · exact source.kind

/-- What a row set declares for a hop: the key of where it starts, its edge and its node. -/
structure HopOutputs (picks : Decisions) (hop : Traversal) (outputs : List String) : Prop where
  key : HasKey outputs hop.joinFrom
  edge : picks.Supplies outputs hop.edgeAlias
  node : picks.Supplies outputs hop.nodeAlias

theorem hopOutputs_append {σ : Type} {block : Block σ} (bound : block.Bound)
    (fit : picks.Fit block) {hop : Traversal} (member : hop ∈ block.traversals)
    {handed distances : List String} (key : HasKey handed hop.joinFrom)
    (distance : ∀ vector ∈ picks.vector, vector.aliasName = hop.nodeAlias → distanceName hop.nodeAlias ∈ distances) :
    HopOutputs picks hop (handed ++ (picks.carried hop.edgeAlias).map (carriedName hop.edgeAlias) ++
        (picks.carried hop.nodeAlias).map (carriedName hop.nodeAlias) ++ distances) := by
  refine ⟨⟨by simp [key.id], by simp [key.kind]⟩, ⟨?_, ?_⟩, ⟨?_, ?_⟩⟩
  · intro column carried
    simp only [mem_append]
    exact .inl (.inl (.inr (mem_map_of_mem carried)))
  · intro vector found same
    have node := (fit.vector vector found).1
    rw [same, bound.elementOf_edge member] at node
    simp at node
  · intro column carried
    simp only [mem_append]
    exact .inl (.inr (mem_map_of_mem carried))
  · intro vector found same
    exact mem_append_right _ (distance vector found same)

section

variable (bound : block.Bound) (fit : picks.Fit block) (nested : block.NestedEnsures holds)
variable (env : Setting) {hop : Traversal} (member : hop ∈ block.traversals)

include bound fit nested member

theorem hopRowSet_ensures (later : List Traversal) (declared : rowSet ∈ known)
    (name : rowSet.name = env.rowSetName hop.joinFrom)
    (key : HasKey rowSet.columns hop.joinFrom) :
    Ensures (block.hopRowSet env picks hop later).result fun made =>
      made.name = env.rowSetName hop.nodeAlias ∧
        ∃ outputs, made.Scoped holds false known outputs ∧ HopOutputs picks hop outputs ∧
          (picks.collapse = true → rowSet.columns ⊆ outputs) := by
  obtain ⟨columns, gives, sourceKey, whole⟩ := block.hopSource_gives env picks hop declared name key
  have source : (NodeKey.carried .source hop.joinFrom).Reads (Reference.InReach [⟨.source, columns⟩]) :=
    carried_inReach (mem_singleton_self _) sourceKey.id sourceKey.kind
  have joins : Join.Extend holds known _ _ _ := hop.joins_extend env.graphId source false
  have joined : Table.nodes.visible ∈ [Table.nodes.visible, Table.edges.visible, ⟨.source, columns⟩] := mem_cons_self
  obtain ⟨reach, search, parts, distance⟩ := picks.vectorParts_spec hop.nodeAlias holds known joined
  have included := search.subset
  have nodes : Table.nodes.visible ∈ reach := included joined
  have edges : Table.edges.visible ∈ reach := included (mem_cons_of_mem _ mem_cons_self)
  have visible : ⟨.source, columns⟩ ∈ reach := included (by simp)
  obtain ⟨handedInReach, handedKey, handedAll⟩ := handedColumns_spec visible sourceKey
  unfold hopRowSet
  simp only [result_bind, result_pure, ensures_bind]
  apply (hopConditions_ensures bound fit nested env.opts.dialect member rfl rfl
    (Element.readable .edge edges) (Element.readable .node nodes)).imp
  intro conditions admitted
  refine ⟨rfl, _, ⟨⟨_, reach, gives, joins.append search, ⟨?_, ?_, by simp, by simp, by simp⟩, rfl⟩, by simp⟩, ?_, ?_⟩
  · simp only [forall_mem_append]
    refine ⟨⟨⟨handedInReach, ?_⟩, ?_⟩, parts.columns⟩
    · exact block.tableColumns_inReach picks (by rwa [bound.elementOf_edge member])
    · exact block.tableColumns_inReach picks (by rwa [bound.elementOf_node member])
  · exact forall_mem_append.mpr ⟨admitted, parts.conditions⟩
  · simp only [flatMap_append, names_tableColumns]
    exact hopOutputs_append bound fit member handedKey distance
  · intro collapse column mem
    simp only [flatMap_append, mem_append]
    exact .inl (.inl (.inl (handedAll collapse (whole collapse ▸ mem))))

theorem countRowSet_ensures (counts : Counts) : Ensures (block.countRowSet env picks hop counts).result fun made =>
      made.name = env.rowSetName counts.aliasName ∧ ∃ outputs, made.Scoped holds false known outputs ∧
          HasKey outputs block.start.aliasName ∧
          ∀ entry ∈ counts.columns, countName entry.1 ∈ outputs := by
  have nodes : Table.nodes.visible ∈ [Table.nodes.visible, Table.edges.visible] := mem_cons_self
  have edges : Table.edges.visible ∈ [Table.nodes.visible, Table.edges.visible] := by simp
  have readable := Element.readable .edge edges
  have near := near_reads readable hop.direction
  have far := far_reads readable hop.direction
  have node := node_reads (Element.readable .node nodes)
  unfold countRowSet
  simp only [result_bind, result_pure, ensures_bind]
  apply (hopConditions_ensures bound fit nested env.opts.dialect member rfl rfl
    (Element.readable .edge edges) (Element.readable .node nodes)).imp
  intro conditions admitted
  refine ⟨rfl, _, ⟨⟨_, _, .table .edges, ⟨_, .table .nodes, ?_, rfl⟩,
    ⟨?_, ?_, ?_, by simp, by simp⟩, rfl⟩, by simp⟩, ⟨by simp [names],
    by simp [names]⟩, ?_⟩
  · refine forall_mem_cons.mpr ⟨?_, (judges_admits _ _).same node far⟩
    exact admits_equal (Element.readable .node nodes).graph readable.graph
  · refine forall_mem_append.mpr ⟨?_, forall_mem_map.mpr fun _ _ => node.id⟩
    exact forall_mem_pair.mpr ⟨near.id, near.kind⟩
  · refine forall_mem_append.mpr ⟨forall_mem_pair.mpr ⟨?_, admits_kindIs near.kind _⟩, admitted⟩
    exact admits_equal readable.graph (Term.reads_value _)
  · exact forall_mem_pair.mpr ⟨near.id, near.kind⟩
  · intro entry counted
    rw [flatMap_append, mem_append]
    exact .inr (mem_flatMap.mpr ⟨_, mem_map_of_mem counted, mem_singleton_self _⟩)

end

/-- A row set under the name of its alias is declared for the hop. -/
def DeclaresHop (env : Setting) (picks : Decisions) (known : List Declared) (hop : Traversal) : Prop :=
  ∃ rowSet ∈ known, rowSet.name = env.rowSetName hop.nodeAlias ∧ HopOutputs picks hop rowSet.columns

/-- A row set under the name of its alias is declared, with the key of the alias. -/
def DeclaresKey (env : Setting) (known : List Declared) (aliasName : String) : Prop :=
  ∃ rowSet ∈ known, rowSet.name = env.rowSetName aliasName ∧ HasKey rowSet.columns aliasName

def rowSetOf (block : Block Nested) (env : Setting) (picks : Decisions) (hop : Traversal)
    (later : List Traversal) : Traced (RowSet Statement) :=
  match picks.counts with
  | some counts =>
      if counts.nodeAlias = hop.nodeAlias then block.countRowSet env picks hop counts
      else block.hopRowSet env picks hop later
  | none => block.hopRowSet env picks hop later

theorem result_hopRowSets_cons {env : Setting} {later : List Traversal} :
    (block.hopRowSets env picks (hop :: later)).result = (block.rowSetOf env picks hop later).result >>= fun rowSet =>
        (block.hopRowSets env picks later).result >>= fun rest => .ok (rowSet :: rest) := by
  rw [hopRowSets, rowSetOf]
  cases picks.counts with
  | none => simp only [result_bind, result_pure]
  | some counts =>
    dsimp only
    split <;> simp only [result_bind, result_pure]

variable (bound : block.Bound) (fit : picks.Fit block) (nested : block.NestedEnsures holds)
variable (env : Setting) (uncounted : picks.counts = none) {hops : List Traversal}

include bound fit nested uncounted

/-- The row sets of hops are scoped, each after those before it, and all of them are declared where
the final SELECT reads them. -/
theorem hopRowSets_ensures (members : hops ⊆ block.traversals) {joinable : List String}
    (joins : JoinsFrom joinable hops)
    (declared : ∀ aliasName ∈ joinable, DeclaresKey env known aliasName) :
    Ensures (block.hopRowSets env picks hops).result fun rowSets =>
      ∃ final, known ⊆ final ∧ (∀ hop ∈ hops, DeclaresHop env picks final hop) ∧
        ∀ select, (∃ outputs, select.Scoped holds final outputs) →
          Level.ScopedAfter holds false select known rowSets := by
  induction hops generalizing known joinable with
  | nil => exact ⟨known, List.Subset.refl _, by simp, fun _ isScoped => isScoped⟩
  | cons hop later ih =>
    have member : hop ∈ block.traversals := members mem_cons_self
    obtain ⟨rowSet, inKnown, name, key⟩ := declared hop.joinFrom joins.1
    simp only [hopRowSets, uncounted, result_bind, result_pure, ensures_bind]
    apply (hopRowSet_ensures bound fit nested env member later inKnown name key).imp
    rintro made ⟨madeName, outputs, isScoped, hopOutputs, -⟩
    have extended : ∀ aliasName ∈ hop.nodeAlias :: joinable,
        DeclaresKey env (⟨made.name, outputs⟩ :: known) aliasName := by
      intro aliasName mem
      rcases mem_cons.mp mem with rfl | before
      · exact ⟨_, mem_cons_self, madeName, hopOutputs.node.hasKey fit (bound.elementOf_node member)⟩
      · obtain ⟨other, inOther, spec⟩ := declared aliasName before
        exact ⟨other, mem_cons_of_mem _ inOther, spec⟩
    apply (ih (List.Subset.trans (subset_cons_self _ _) members) joins.2 extended).imp
    rintro rest ⟨final, included, declaredHops, after⟩
    refine ⟨final, List.Subset.trans (subset_cons_self _ _) included, ?_, ?_⟩
    · intro other mem
      rcases mem_cons.mp mem with rfl | inLater
      · exact ⟨_, included mem_cons_self, madeName, hopOutputs⟩
      · exact declaredHops other inLater
    · intro select selectScoped
      exact ⟨outputs, isScoped, after select selectScoped⟩

/-- The last row set of a collapsed chain supplies every alias of the chain. -/
theorem collapsedRowSets_ensures (collapse : picks.collapse = true)
    (members : hops ⊆ block.traversals) {previous : String}
    (linear : isLinearFrom previous hops = true) {supplied : List String}
    (declared : rowSet ∈ known) (name : rowSet.name = env.rowSetName previous)
    (key : HasKey rowSet.columns previous)
    (supplies : ∀ aliasName ∈ supplied, picks.Supplies rowSet.columns aliasName) :
    Ensures (block.hopRowSets env picks hops).result fun rowSets =>
      ∃ final, ∃ last ∈ final, last.name = env.rowSetName ((hops.getLast?.map Traversal.nodeAlias).getD previous) ∧
        (∀ aliasName ∈ supplied ++ hops.flatMap fun hop => [hop.edgeAlias, hop.nodeAlias],
          picks.Supplies last.columns aliasName) ∧
        ∀ select, (∃ outputs, select.Scoped holds final outputs) →
          Level.ScopedAfter holds false select known rowSets := by
  induction hops generalizing known previous supplied rowSet with
  | nil => exact ⟨known, rowSet, declared, name, by simpa using supplies, fun _ isScoped => isScoped⟩
  | cons hop later ih =>
    have member : hop ∈ block.traversals := members mem_cons_self
    simp only [isLinearFrom, Bool.and_eq_true, beq_iff_eq] at linear
    obtain ⟨rfl, linear⟩ := linear
    simp only [hopRowSets, uncounted, result_bind, result_pure, ensures_bind]
    apply (hopRowSet_ensures bound fit nested env member later declared name key).imp
    rintro made ⟨madeName, outputs, isScoped, hopOutputs, handed⟩
    have extended : ∀ aliasName ∈ supplied ++ [hop.edgeAlias, hop.nodeAlias], picks.Supplies outputs aliasName := by
      intro aliasName mem
      rcases mem_append.mp mem with before | ofHop
      · exact (supplies aliasName before).mono (handed collapse)
      · rcases mem_pair.mp ofHop with rfl | rfl
        · exact hopOutputs.edge
        · exact hopOutputs.node
    have inKnown : (⟨made.name, outputs⟩ : Declared) ∈ ⟨made.name, outputs⟩ :: known := mem_cons_self
    apply (ih (List.Subset.trans (subset_cons_self _ _) members) linear
      inKnown madeName (hopOutputs.node.hasKey fit (bound.elementOf_node member)) extended).imp
    rintro rest ⟨final, last, inFinal, lastName, lastSupplies, after⟩
    refine ⟨final, last, inFinal, ?_, ?_, ?_⟩
    · rw [lastName]
      cases later <;> simp [getLast?_cons]
    · intro aliasName mem
      exact lastSupplies aliasName (by simpa using mem)
    · intro select selectScoped
      exact ⟨outputs, isScoped, after select selectScoped⟩

end Block

end GraphSql
