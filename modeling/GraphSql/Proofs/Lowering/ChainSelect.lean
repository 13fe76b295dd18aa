import GraphSql.Proofs.Lowering.Chain

namespace GraphSql.Block

open List NodeKey Option Output Traced

variable {σ : Type} {reach : List Visible} {known : List Declared} {holds : Statement → Prop}
variable {block : Block Nested} {picks : Decisions}

/-- What the final SELECT reads is visible through the relations that it reads it from. -/
structure FinalReach {σ : Type} (block : Block σ) (env : Setting) (picks : Decisions)
    (reach : List Visible) : Prop where
  supplied : ∀ aliasName ∈ block.aliases,
    picks.isCounted ((block.ownerOf aliasName).getD block.start.aliasName) = false →
      ∃ columns, ⟨.relation (env.rowSetName (block.readFrom picks aliasName)), columns⟩ ∈ reach ∧
        picks.Supplies columns aliasName
  counted : ∀ index term, block.countTerm env picks index = some term → term.Reads (Reference.InReach reach)

variable {env : Setting}

theorem mem_relations {block : Block σ} {carried : Carried} (member : carried ∈ (block.relations env picks).carried) :
    carried.aliasName ∈ block.aliases ∧
      picks.isCounted ((block.ownerOf carried.aliasName).getD block.start.aliasName) = false ∧
      carried =
        { aliasName := carried.aliasName
          relation := env.rowSetName (block.readFrom picks carried.aliasName)
          element := block.elementOf carried.aliasName
          columns := picks.carried carried.aliasName } := by
  obtain ⟨aliasName, kept, rfl⟩ := mem_map.mp member
  obtain ⟨mem, uncounted⟩ := mem_filter.mp kept
  exact ⟨mem, by simpa using uncounted, rfl⟩

theorem relations_inReach {block : Block σ} (fit : picks.Fit block) (final : block.FinalReach env picks reach) :
    (block.relations env picks).InReach reach := by
  constructor
  · intro carried member column kept reference read
    obtain ⟨mem, uncounted, same⟩ := mem_relations member
    obtain ⟨columns, visible, supplies⟩ := final.supplied _ mem uncounted
    rw [same] at kept read
    obtain rfl := mem_singleton.mp read
    exact ⟨_, visible, rfl, supplies.carried column kept⟩
  · intro carried member empty
    obtain ⟨-, -, same⟩ := mem_relations member
    have id : Column.id ∈ carried.columns := by
      rw [same]
      exact fit.id carried.aliasName
    simp [empty] at id

theorem relations_keeps {block : Block σ} (fit : picks.Fit block) {field : Field}
    (late : field ∈ block.lateFields) : (block.relations env picks).Keeps field := by
  intro carried mem name column read present
  obtain ⟨-, -, same⟩ := mem_relations mem
  rw [same] at present ⊢
  rw [name] at present ⊢
  exact fit.late field late column read present

def chainOutput {σ : Type} (block : Block σ) (env : Setting) (picks : Decisions) : Output where
  relations := block.relations env picks
  nearest := picks.vector.map fun vector => (vector.aliasName, vector.search.count)
  aliases := block.aliases
  computed := block.countTerm env picks

theorem chainOutput_inReach {block : Block σ} (fit : picks.Fit block)
    (searches : picks.vector.isSome = true → picks.counts = none)
    (final : block.FinalReach env picks reach) :
    (block.chainOutput env picks).InReach reach := by
  refine ⟨relations_inReach fit final, ?_, final.counted⟩
  intro aliasName count nearest
  obtain ⟨vector, found, same⟩ := map_eq_some_iff.mp nearest
  obtain ⟨rfl, -⟩ := Prod.mk.inj same
  have uncounted (owner : String) : picks.isCounted owner = false := by
    simp [Decisions.isCounted, searches (by simp [found])]
  have mem : ∃ carried ∈ (block.relations env picks).carried, (carried.aliasName == vector.aliasName) = true :=
    ⟨_, mem_map_of_mem (mem_filter.mpr ⟨(fit.vector vector found).2, by simp [uncounted]⟩), beq_self_eq_true _⟩
  obtain ⟨carried, lookup⟩ := isSome_iff_exists.mp (find?_isSome.mpr mem)
  have name : carried.aliasName = vector.aliasName := by simpa using find?_some lookup
  obtain ⟨inAliases, -, spec⟩ := mem_relations (mem_of_find?_eq_some lookup)
  obtain ⟨columns, visible, supplies⟩ := final.supplied _ inAliases (uncounted _)
  have relations : (block.chainOutput env picks).relations.find? vector.aliasName = some carried := lookup
  unfold distance
  rw [relations]
  intro reference read
  obtain rfl := mem_singleton.mp read
  refine ⟨_, visible, by rw [spec], ?_⟩
  rw [← name]
  exact supplies.distance vector found name.symm

theorem result_chainSelect (block : Block Nested) (env : Setting) (picks : Decisions) :
    (block.chainSelect env picks).result = do
      let output := block.chainOutput env picks
      let dialect := env.opts.dialect
      let columns ← output.columns block
      let conditions ← (block.lowerPlaced dialect picks output.scope none).result
      let groupBy ← (if picks.counts.isNone then output.groupBy block.groupBy else pure [])
      let having ←
        (if picks.counts.isNone then (output.having dialect block.having).result else pure none)
      let orderBy ← output.orderBy block.orderBy
      return {
        columns
        source := .relation (env.rowSetName (if picks.collapse then block.lastAlias else block.start.aliasName)) none
        joins := if picks.collapse then [] else block.traversals.map (rowSetJoin env picks)
        conditions
        groupBy
        having
        orderBy
        bounds := output.bounds block } := by
  unfold chainSelect
  simp only [result_bind]
  cases picks.counts with
  | none =>
    simp only [isNone_none, if_true, result_bind]
    rfl
  | some counts =>
    simp only [isNone_some, Bool.false_eq_true, if_false, result_bind]
    rfl

theorem chainSelect_ensures (fit : picks.Fit block) (nested : block.NestedEnsures holds) (env : Setting)
    (searches : picks.vector.isSome = true → picks.counts = none) {first : Visible}
    (gives : Source.Gives known (.relation (env.rowSetName
      (if picks.collapse then block.lastAlias else block.start.aliasName)) none) first)
    (joins : Join.Extend holds known [first]
      (if picks.collapse then [] else block.traversals.map (rowSetJoin env picks)) reach)
    (final : block.FinalReach env picks reach) :
    Ensures (block.chainSelect env picks).result fun select =>
      (∃ outputs, select.Scoped holds known outputs) ∧ select.Writes (!block.orderBy.isEmpty || picks.vector.isSome)
          (block.limit.isSome || block.offset.isSome || picks.vector.isSome)
          (picks.counts.isNone && !block.groupBy.isEmpty)
          (picks.counts.isNone && block.having.isSome) := by
  have inReach := chainOutput_inReach fit searches final
  have keeps {field : Field} (late : field ∈ block.lateFields) :
      (block.chainOutput env picks).relations.Keeps field := relations_keeps fit late
  have groupBy : Ensures (if picks.counts.isNone then
        (block.chainOutput env picks).groupBy block.groupBy else pure []) fun terms =>
      (!terms.isEmpty) = (picks.counts.isNone && !block.groupBy.isEmpty) ∧
        ∀ term ∈ terms, term.Reads (Reference.InReach reach) := by
    split
    · next uncounted =>
      apply (groupBy_ensures inReach fun _ mem => keeps (late_groupBy mem)).imp
      rintro terms ⟨empty, termsRead⟩
      exact ⟨by rw [empty, uncounted, Bool.true_and], termsRead⟩
    · next counted => simp [counted]
  have having : Ensures (if picks.counts.isNone then
        ((block.chainOutput env picks).having env.opts.dialect block.having).result
      else pure none) fun condition =>
      condition.isSome = (picks.counts.isNone && block.having.isSome) ∧
        ∀ lowered ∈ condition, lowered.Admits (Reference.InReach reach) holds := by
    split
    · next uncounted =>
      apply (having_ensures inReach env.opts.dialect (fun _ found _ mem => keeps (late_having found mem))
        fun _ found query mem => nested query (nested_having found mem)).imp
      rintro condition ⟨present, admitted⟩
      exact ⟨by rw [present, uncounted, Bool.true_and], admitted⟩
    · next counted => simp [counted]
  rw [result_chainSelect]
  simp only [ensures_bind]
  apply (columns_ensures inReach (fun _ mem => keeps (late_projection mem))
    fun _ mem => keeps (late_selected mem)).imp
  intro columns columnsRead
  apply (lowerPlaced_ensures env.opts.dialect fit.placements
    (fun _ placed _ mem => inReach.relations.serves (keeps (late_placed placed mem)) false)
    nested).imp
  intro conditions admitted
  apply groupBy.imp
  rintro terms ⟨grouped, termsRead⟩
  apply having.imp
  rintro condition ⟨restricted, conditionAdmitted⟩
  apply (orderBy_ensures inReach fun _ mem => keeps (late_orderBy mem)).imp
  rintro keys ⟨ordered, keysRead⟩
  refine ⟨⟨_, first, reach, gives, joins,
    ⟨columnsRead, admitted, termsRead, conditionAdmitted, keysRead⟩, rfl⟩, ?_, ?_, grouped, restricted⟩
  · rw [ordered]
    cases block.orderBy.isEmpty <;> cases found : picks.vector <;> simp [chainOutput, found]
  · rw [isSome_bounds]
    simp [chainOutput]

/-- The row sets of hops are joined to those that they start from, which are joined before. -/
theorem rowSetJoins_extend {block : Block σ} (holds : Statement → Prop) (bound : block.Bound)
    (fit : picks.Fit block) (uncounted : picks.counts = none) {hops : List Traversal}
    (members : hops ⊆ block.traversals) {joinable : List String} (joins : JoinsFrom joinable hops)
    (declared : ∀ hop ∈ hops, DeclaresHop env picks known hop)
    (visible : ∀ aliasName ∈ joinable, ∃ columns,
      ⟨.relation (env.rowSetName aliasName), columns⟩ ∈ reach ∧ HasKey columns aliasName) :
    ∃ final, Join.Extend holds known reach (hops.map (rowSetJoin env picks)) final ∧
      ∀ hop ∈ hops, ∃ columns, ⟨.relation (env.rowSetName hop.nodeAlias), columns⟩ ∈ final ∧
        HopOutputs picks hop columns := by
  induction hops generalizing reach joinable with
  | nil => exact ⟨reach, rfl, by simp⟩
  | cons hop later ih =>
    have member : hop ∈ block.traversals := members mem_cons_self
    obtain ⟨rowSet, inKnown, name, outputs⟩ := declared hop mem_cons_self
    obtain ⟨columns, source, key⟩ := visible hop.joinFrom joins.1
    have hopName : env.hopName picks hop = rowSet.name := by rw [name, Setting.hopName, uncounted]
    have extended : ∀ aliasName ∈ hop.nodeAlias :: joinable,
        ∃ columns, ⟨.relation (env.rowSetName aliasName), columns⟩ ∈
            (⟨.relation rowSet.name, rowSet.columns⟩ :: reach : List Visible) ∧
          HasKey columns aliasName := by
      intro aliasName mem
      rcases mem_cons.mp mem with rfl | before
      · exact ⟨rowSet.columns, by simp [name], outputs.node.hasKey fit (bound.elementOf_node member)⟩
      · obtain ⟨others, inReach, otherKey⟩ := visible aliasName before
        exact ⟨others, mem_cons_of_mem _ inReach, otherKey⟩
    obtain ⟨final, extend, supplied⟩ :=
      ih (List.Subset.trans (subset_cons_self _ _) members) joins.2
        (fun other mem => declared other (mem_cons_of_mem _ mem)) extended
    refine ⟨final, ⟨⟨.relation rowSet.name, rowSet.columns⟩, ?_, ?_, extend⟩, ?_⟩
    · simp only [rowSetJoin, hopName]
      exact .relation inKnown
    · simp only [rowSetJoin, hopName]
      exact (judges_admits _ _).same (carried_inReach mem_cons_self outputs.key.id outputs.key.kind)
        (carried_inReach (mem_cons_of_mem _ source) key.id key.kind)
    · intro other mem
      rcases mem_cons.mp mem with rfl | inLater
      · exact ⟨rowSet.columns, extend.subset (by simp [name]), outputs⟩
      · exact supplied other inLater

section FinalReach

variable {σ : Type} {block : Block σ} {env : Setting}

section

variable (uncounted : picks.counts = none)

include uncounted

theorem countTerm_eq_none (index : Nat) : block.countTerm env picks index = none := by
  rw [countTerm, uncounted]

/-- Where row sets are joined again, each alias is read from the row set of its owner. -/
theorem finalReach_joined (joined : picks.collapse = false)
    (start : ∃ columns, ⟨.relation (env.rowSetName block.start.aliasName), columns⟩ ∈ reach ∧
      picks.Supplies columns block.start.aliasName)
    (hops : ∀ hop ∈ block.traversals, ∃ columns, ⟨.relation (env.rowSetName hop.nodeAlias), columns⟩ ∈ reach ∧
        HopOutputs picks hop columns) :
    block.FinalReach env picks reach := by
  have readFrom (aliasName : String) : block.readFrom picks aliasName =
      (block.ownerOf aliasName).getD block.start.aliasName := by simp [Block.readFrom, joined]
  refine ⟨?_, by simp [countTerm_eq_none uncounted]⟩
  intro aliasName mem _
  rw [readFrom]
  cases block.place aliasName with
  | start name owner =>
    rw [owner, name]
    exact start
  | node hop member name owner =>
    obtain ⟨columns, visible, outputs⟩ := hops hop member
    rw [owner, name]
    exact ⟨columns, visible, outputs.node⟩
  | edge hop member name owner =>
    obtain ⟨columns, visible, outputs⟩ := hops hop member
    rw [owner, name]
    exact ⟨columns, visible, outputs.edge⟩
  | unbound absent => exact absurd mem absent

/-- Where row sets are collapsed, every alias is read from the last one. -/
theorem finalReach_collapsed (collapse : picks.collapse = true) {columns : List String}
    (last : ⟨.relation (env.rowSetName block.lastAlias), columns⟩ ∈ reach)
    (supplies : ∀ aliasName ∈ block.aliases, picks.Supplies columns aliasName) :
    block.FinalReach env picks reach := by
  refine ⟨?_, by simp [countTerm_eq_none uncounted]⟩
  intro aliasName mem _
  have readFrom : block.readFrom picks aliasName = block.lastAlias := by simp [Block.readFrom, collapse]
  rw [readFrom]
  exact ⟨columns, last, supplies aliasName mem⟩

end

/-- Where the only hop is counted, the start is read from its row set and the counts from theirs. -/
theorem finalReach_counted {counts : Counts} (counted : picks.counts = some counts)
    (joined : picks.collapse = false) {hop : Traversal} (single : block.traversals = [hop])
    (nodeAlias : counts.nodeAlias = hop.nodeAlias) {startColumns countColumns : List String}
    (start : ⟨.relation (env.rowSetName block.start.aliasName), startColumns⟩ ∈ reach)
    (supplies : picks.Supplies startColumns block.start.aliasName)
    (countsVisible : ⟨.relation (env.rowSetName counts.aliasName), countColumns⟩ ∈ reach)
    (outputs : ∀ entry ∈ counts.columns, countName entry.1 ∈ countColumns) :
    block.FinalReach env picks reach := by
  have replaced (other : Traversal) (member : other ∈ block.traversals) : picks.isCounted other.nodeAlias = true := by
    rw [single, mem_singleton] at member
    simp [Decisions.isCounted, counted, nodeAlias, member]
  constructor
  · intro aliasName mem uncounted
    cases block.place aliasName with
    | start name owner =>
      have readFrom : block.readFrom picks aliasName = block.start.aliasName := by
        simp [Block.readFrom, joined, owner]
      rw [readFrom, name]
      exact ⟨startColumns, start, supplies⟩
    | node other member _ owner | edge other member _ owner =>
      rw [owner, getD_some, replaced other member] at uncounted
      simp at uncounted
    | unbound absent => exact absurd mem absent
  · intro index term found
    have reads (mem : counts.columns.any (·.1 == index) = true) :
        (Term.column (.relation (env.rowSetName counts.aliasName)) (countName index)).Reads
          (Reference.InReach reach) := by
      obtain ⟨entry, member, same⟩ := any_eq_true.mp mem
      exact Term.column_reads countsVisible (beq_iff_eq.mp same ▸ outputs entry member)
    rw [countTerm, counted] at found
    dsimp only at found
    split at found
    · next mem =>
      split at found
      · obtain rfl := some_inj.mp found
        exact reads mem
      · obtain rfl := some_inj.mp found
        exact reads mem
    · simp at found

end FinalReach

/-- After its row sets, the final SELECT of a level is scoped and has the clauses of the query. -/
def ChainScoped (holds : Statement → Prop) (block : Block Nested) (picks : Decisions)
    (level : Level Statement) : Prop :=
  level.Scoped holds ∧ level.select.Writes (!block.orderBy.isEmpty || picks.vector.isSome)
      (block.limit.isSome || block.offset.isSome || picks.vector.isSome)
      (picks.counts.isNone && !block.groupBy.isEmpty)
      (picks.counts.isNone && block.having.isSome)

section

variable (bound : block.Bound) (fit : picks.Fit block) (nested : block.NestedEnsures holds)
variable (env : Setting)

include bound fit nested

theorem joinedLevel_ensures (uncounted : picks.counts = none) (joined : picks.collapse = false) :
    Ensures (block.chainLevel env picks).result (ChainScoped holds block picks) := by
  unfold chainLevel
  simp only [result_bind, ensures_bind]
  apply (startRowSet_ensures bound fit nested env).imp
  rintro start ⟨startName, outputs, startScoped, supplies⟩
  have key := supplies.hasKey fit block.elementOf_start
  have declared : ∀ aliasName ∈ [block.start.aliasName], DeclaresKey env [⟨start.name, outputs⟩] aliasName := by
    intro aliasName mem
    obtain rfl := mem_singleton.mp mem
    exact ⟨_, mem_singleton_self _, startName, key⟩
  apply (hopRowSets_ensures bound fit nested env uncounted (List.Subset.refl _) bound.joins declared).imp
  rintro hops ⟨known, included, hopsDeclared, after⟩
  have source : (⟨start.name, outputs⟩ : Declared) ∈ known := included (mem_singleton_self _)
  have visible : ∀ aliasName ∈ [block.start.aliasName], ∃ columns, ⟨.relation (env.rowSetName aliasName), columns⟩ ∈
          ([⟨.relation start.name, outputs⟩] : List Visible) ∧ HasKey columns aliasName := by
    intro aliasName mem
    obtain rfl := mem_singleton.mp mem
    exact ⟨outputs, by simp [startName], key⟩
  obtain ⟨reach, extend, supplied⟩ := rowSetJoins_extend holds bound fit uncounted
    (List.Subset.refl _) bound.joins hopsDeclared visible
  have startVisible : ⟨.relation (env.rowSetName block.start.aliasName), outputs⟩ ∈ reach :=
    startName ▸ extend.subset (mem_singleton_self _)
  have final : block.FinalReach env picks reach :=
    finalReach_joined uncounted joined ⟨outputs, startVisible, supplies⟩ supplied
  have gives : Source.Gives known
      (.relation (env.rowSetName block.start.aliasName) none) ⟨.relation start.name, outputs⟩ :=
    startName ▸ .relation source
  apply (chainSelect_ensures fit nested env (fun _ => uncounted)
    (by simpa [joined] using gives) (by simpa [joined] using extend) final).imp
  rintro select ⟨selectScoped, writes⟩
  exact ⟨⟨outputs, startScoped, after select selectScoped⟩, writes⟩

theorem collapsedLevel_ensures (uncounted : picks.counts = none) (collapse : picks.collapse = true)
    (linear : isLinearFrom block.start.aliasName block.traversals = true) :
    Ensures (block.chainLevel env picks).result (ChainScoped holds block picks) := by
  unfold chainLevel
  simp only [result_bind, ensures_bind]
  apply (startRowSet_ensures bound fit nested env).imp
  rintro start ⟨startName, outputs, startScoped, supplies⟩
  have declared : (⟨start.name, outputs⟩ : Declared) ∈ [⟨start.name, outputs⟩] := mem_singleton_self _
  have suppliesStart : ∀ aliasName ∈ [block.start.aliasName],
      picks.Supplies outputs aliasName := by simpa using supplies
  apply (collapsedRowSets_ensures bound fit nested env uncounted collapse
    (List.Subset.refl _) linear declared startName (supplies.hasKey fit block.elementOf_start)
    suppliesStart).imp
  rintro hops ⟨known, last, inKnown, lastName, suppliesAll, after⟩
  have lastVisible : ⟨.relation (env.rowSetName block.lastAlias), last.columns⟩ ∈
      ([⟨.relation last.name, last.columns⟩] : List Visible) := by
    rw [lastName]
    exact mem_singleton_self _
  have final : block.FinalReach env picks [⟨.relation last.name, last.columns⟩] :=
    finalReach_collapsed uncounted collapse lastVisible suppliesAll
  have gives : Source.Gives known (.relation (env.rowSetName block.lastAlias) none)
      ⟨.relation last.name, last.columns⟩ := by
    have relation := Source.Gives.relation inKnown
    rwa [lastName] at relation ⊢
  apply (chainSelect_ensures fit nested env (fun _ => uncounted)
    (by simpa [collapse] using gives) (by simp [collapse, Join.Extend]) final).imp
  rintro select ⟨selectScoped, writes⟩
  exact ⟨⟨outputs, startScoped, after select selectScoped⟩, writes⟩

theorem countedLevel_ensures {counts : Counts} (counted : picks.counts = some counts)
    (joined : picks.collapse = false) (unsearched : picks.vector = none) {hop : Traversal}
    (single : block.traversals = [hop]) (nodeAlias : counts.nodeAlias = hop.nodeAlias) :
    Ensures (block.chainLevel env picks).result (ChainScoped holds block picks) := by
  have mem : hop ∈ block.traversals := by simp [single]
  have joinFrom : hop.joinFrom = block.start.aliasName := by
    have joins := bound.joins
    rw [single] at joins
    exact mem_singleton.mp joins.1
  unfold chainLevel
  rw [single]
  simp only [hopRowSets, counted, nodeAlias, if_true, result_bind, result_pure, ensures_bind]
  apply (startRowSet_ensures bound fit nested env).imp
  rintro start ⟨startName, outputs, startScoped, supplies⟩
  apply (countRowSet_ensures bound fit nested env mem counts).imp
  rintro made ⟨madeName, countOutputs, madeScoped, key, countColumns⟩
  let known : List Declared := [⟨made.name, countOutputs⟩, ⟨start.name, outputs⟩]
  let reach : List Visible := [⟨.relation made.name, countOutputs⟩, ⟨.relation start.name, outputs⟩]
  have startVisible : ⟨.relation (env.rowSetName block.start.aliasName), outputs⟩ ∈ reach := by
    simp [reach, startName]
  have countsVisible : ⟨.relation (env.rowSetName counts.aliasName), countOutputs⟩ ∈ reach := by
    simp [reach, madeName]
  have final : block.FinalReach env picks reach :=
    finalReach_counted counted joined single nodeAlias startVisible supplies countsVisible countColumns
  have gives : Source.Gives known (.relation (env.rowSetName block.start.aliasName) none)
      ⟨.relation start.name, outputs⟩ := by
    rw [← startName]
    exact .relation (mem_cons_of_mem _ mem_cons_self)
  have hopName : env.hopName picks hop = made.name := by
    simp [Setting.hopName, counted, nodeAlias, madeName]
  have extend : Join.Extend holds known [⟨.relation start.name, outputs⟩] [rowSetJoin env picks hop] reach := by
    refine ⟨_, ?_, ?_, rfl⟩
    · simp only [rowSetJoin, hopName]
      exact .relation mem_cons_self
    · have startKey := supplies.hasKey fit block.elementOf_start
      simp only [rowSetJoin, hopName, joinFrom]
      exact (judges_admits _ _).same (carried_inReach mem_cons_self key.id key.kind)
        (carried_inReach startVisible startKey.id startKey.kind)
  apply (chainSelect_ensures fit nested env (by simp [unsearched])
    (by simpa [joined] using gives) (by simpa [joined, single] using extend) final).imp
  rintro select ⟨selectScoped, writes⟩
  exact ⟨⟨outputs, startScoped, countOutputs, madeScoped, selectScoped⟩, writes⟩

end

theorem chainLevel_ensures (bound : block.Bound) (fit : picks.Fit block) (shortcuts : picks.Shortcuts block)
    (nested : block.NestedEnsures holds) (env : Setting) :
    Ensures (block.chainLevel env picks).result (ChainScoped holds block picks) := by
  cases counted : picks.counts with
  | some counts =>
    obtain ⟨hop, single, nodeAlias, unsearched, joined⟩ := shortcuts.counts counts counted
    exact countedLevel_ensures bound fit nested env counted joined unsearched single nodeAlias
  | none =>
    cases collapse : picks.collapse with
    | true => exact collapsedLevel_ensures bound fit nested env counted collapse (shortcuts.collapse collapse)
    | false => exact joinedLevel_ensures bound fit nested env counted collapse

end GraphSql.Block
