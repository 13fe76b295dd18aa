import GraphSql.Proofs.Equivalence.CountRows
import GraphSql.Proofs.Equivalence.SingleHopSelect
import GraphSql.Proofs.Levels
import GraphSql.Proofs.Pruning.Transparency

namespace GraphSql

open Block Decisions List OutputColumn RowSet Select Traced

variable {hop : Traversal} {hops : List Traversal} {letterCase : LetterCase} {name : String}
variable {σ : Type} {block : Block Nested} {env : Setting} {picks : Decisions}

namespace Block

variable {block : Block σ} {aliasName : String}

/-- The columns of an element and a distance have different names after one name. -/
theorem nodup_carriedNames {element : Element} :
    (((Column.ofElement element).map (carriedName name) ++ [distanceName name]).map letterCase.key).Nodup := by
  have injective : Function.Injective fun column => letterCase.key (carriedName name column) := by
    intro first second same
    simp only [LetterCase.key_carriedName] at same
    exact carriedName_injective _ same
  have columns : (Column.ofElement element).Nodup := List.Nodup.filter _ (by decide)
  rw [map_append, map_map, nodup_append]
  refine ⟨columns.map injective, nodup_singleton _, ?_⟩
  intro name carried other isDistance same
  obtain ⟨column, -, rfl⟩ := mem_map.mp carried
  obtain rfl := mem_singleton.mp isDistance
  rw [Function.comp_apply, LetterCase.key_carriedName, LetterCase.key_distanceName, carriedName,
    distanceName, String.append_assoc, String.append_right_inj] at same
  cases column <;> contradiction

/-- Every name that is carried for an alias has a separator. -/
theorem separator_mem (mem : name ∈ block.carriedNames aliasName) : '_' ∈ (letterCase.key name).toList := by
  rcases mem_append.mp mem with carried | distance
  · obtain ⟨column, -, rfl⟩ := mem_map.mp carried
    rw [LetterCase.key_carriedName]
    simp [carriedName]
  · obtain rfl := mem_singleton.mp distance
    rw [LetterCase.key_distanceName]
    simp [distanceName]

/-- The columns are carried for the aliases, one alias after the other. -/
inductive CarriesFor (block : Block σ) : List String → List String → Prop where
  | nil : CarriesFor block [] []
  | cons {aliasName : String} {names aliases columns : List String} (own : names.Sublist (block.carriedNames aliasName))
      (rest : CarriesFor block aliases columns) :
      CarriesFor block (aliasName :: aliases) (names ++ columns)

namespace CarriesFor

variable {aliases others columns further : List String}

theorem singleton {names : List String} (own : names.Sublist (block.carriedNames aliasName)) :
    block.CarriesFor [aliasName] names := by
  simpa using CarriesFor.cons own .nil

theorem append (first : block.CarriesFor aliases columns) (second : block.CarriesFor others further) :
    block.CarriesFor (aliases ++ others) (columns ++ further) := by
  induction first with
  | nil => exact second
  | cons own _ ih =>
    rw [cons_append, append_assoc]
    exact .cons own ih

theorem exists_alias (carries : block.CarriesFor aliases columns) (mem : name ∈ columns) :
    ∃ aliasName ∈ aliases, name ∈ block.carriedNames aliasName := by
  induction carries with
  | nil => simp at mem
  | cons own _ ih =>
    rcases mem_append.mp mem with ofFirst | ofRest
    · exact ⟨_, mem_cons_self, own.subset ofFirst⟩
    · obtain ⟨other, member, carried⟩ := ih ofRest
      exact ⟨other, mem_cons_of_mem _ member, carried⟩

theorem nodup (carries : block.CarriesFor aliases columns) (apart : block.Apart letterCase)
    (bound : aliases ⊆ block.aliases) (distinct : aliases.Nodup) :
    (columns.map letterCase.key).Nodup := by
  have symmetric : Std.Symm fun first second =>
      ((block.carriedNames first).map letterCase.key).Disjoint ((block.carriedNames second).map letterCase.key) :=
    ⟨fun _ _ disjoint => disjoint.symm⟩
  induction carries with
  | nil => exact nodup_nil
  | @cons aliasName names aliases columns own rest ih =>
    obtain ⟨fresh, distinct⟩ := nodup_cons.mp distinct
    obtain ⟨isBound, bound⟩ := cons_subset.mp bound
    rw [map_append, nodup_append']
    refine ⟨nodup_carriedNames.sublist (own.map _), ih bound distinct, ?_⟩
    intro key ofOwn ofRest
    obtain ⟨name, mem, rfl⟩ := mem_map.mp ofRest
    obtain ⟨other, member, carried⟩ := rest.exists_alias mem
    have different : aliasName ≠ other := fun same => fresh (same ▸ member)
    exact List.Pairwise.forall apart isBound (bound member) different
      (((own.map _).subset) ofOwn) (mem_map_of_mem carried)

end CarriesFor

end Block

section Outputs

/-- The columns of a row set by its name. -/
def Declared.columnsOf (known : List Declared) (name : String) : List String :=
  ((known.find? (·.name = name)).map Declared.columns).getD []

/-- What a source of rows makes visible after the declared row sets. -/
def Source.visible (known : List Declared) : Source → Visible
  | .table base => base.visible
  | .relation name row => ⟨row.getD (.relation name), Declared.columnsOf known name⟩
  | .distinct _ columns row => ⟨row, columns⟩

/-- What the FROM clause of a SELECT makes visible. -/
def Select.reachAfter (known : List Declared) (select : Select σ) : List Visible :=
  (select.source :: select.joins.map Join.source).map (Source.visible known)

/-- The names of the columns that a SELECT outputs, those of whole relations included. -/
def Select.outputNames (known : List Declared) (select : Select σ) : List String :=
  select.columns.flatMap (OutputColumn.names (select.reachAfter known))

/-- The names that each member of a row set outputs. Members after the first one may read the row
set itself. -/
def RowSet.outputs (known : List Declared) (rowSet : RowSet σ) : List (List String) :=
  match rowSet.members with
  | [] => []
  | first :: further =>
      let names := first.outputNames known
      names :: further.map (outputNames (⟨rowSet.name, names⟩ :: known))

/-- A row set as later ones find it. -/
def RowSet.declared (known : List Declared) (rowSet : RowSet σ) : Declared :=
  ⟨rowSet.name, (rowSet.outputs known).headD []⟩

/-- The names that row sets output, each after those before it. -/
def RowSet.outputsAfter : List Declared → List (RowSet σ) → List (List String)
  | _, [] => []
  | known, rowSet :: rest => rowSet.outputs known ++ outputsAfter (rowSet.declared known :: known) rest

/-- No row set of the level outputs two columns of one name. -/
def Level.DistinctColumns (letterCase : LetterCase) (level : Level σ) : Prop :=
  ∀ names ∈ RowSet.outputsAfter [] level.rowSets, (names.map letterCase.key).Nodup

end Outputs

theorem JoinsFrom.apart {joinable : List String} (joins : JoinsFrom joinable hops)
    (fresh : ∀ aliasName ∈ joinable, ∀ hop ∈ hops, aliasName ∉ [hop.edgeAlias, hop.nodeAlias])
    (distinct : (hops.flatMap fun hop => [hop.edgeAlias, hop.nodeAlias]).Nodup) :
    ∀ hop ∈ hops, hop.joinFrom ∉ [hop.edgeAlias, hop.nodeAlias] ∧
      (hop.joinFrom ∈ joinable ∨ ∃ other ∈ hops, hop.joinFrom = other.nodeAlias) := by
  induction hops generalizing joinable with
  | nil => simp
  | cons hop rest ih =>
    rw [flatMap_cons, nodup_append'] at distinct
    obtain ⟨-, later, disjoint⟩ := distinct
    have node : ∀ other ∈ rest, hop.nodeAlias ∉ [other.edgeAlias, other.nodeAlias] :=
      fun other mem same => disjoint (by simp) (mem_flatMap.mpr ⟨other, mem, same⟩)
    have known : ∀ aliasName ∈ hop.nodeAlias :: joinable, ∀ other ∈ rest,
        aliasName ∉ [other.edgeAlias, other.nodeAlias] :=
      forall_mem_cons.mpr ⟨node, fun aliasName mem other inRest => fresh aliasName mem other (mem_cons_of_mem _ inRest)⟩
    refine forall_mem_cons.mpr ⟨⟨fresh _ joins.1 hop mem_cons_self, .inl joins.1⟩, ?_⟩
    intro other mem
    obtain ⟨apart, origin⟩ := ih joins.2 known later other mem
    refine ⟨apart, ?_⟩
    rcases origin with before | ⟨origin, inRest, same⟩
    · rcases mem_cons.mp before with same | joined
      · exact .inr ⟨hop, mem_cons_self, same⟩
      · exact .inl joined
    · exact .inr ⟨origin, mem_cons_of_mem _ inRest, same⟩

namespace Block

/-- A hop joins from a node of the query that is not its own. -/
theorem Bound.joinFrom_apart (bound : block.Bound) (member : hop ∈ block.traversals) :
    [hop.joinFrom, hop.edgeAlias, hop.nodeAlias].Nodup ∧ hop.joinFrom ∈ block.aliases ∧
      block.elementOf hop.joinFrom = .node := by
  obtain ⟨fresh, distinct⟩ := nodup_cons.mp bound.nodup_aliases
  have start : ∀ aliasName ∈ [block.start.aliasName], ∀ hop ∈ block.traversals,
      aliasName ∉ [hop.edgeAlias, hop.nodeAlias] := by
    refine forall_mem_singleton.mpr fun hop mem same => fresh ?_
    exact mem_flatMap.mpr ⟨hop, mem, same⟩
  obtain ⟨apart, origin⟩ := bound.joins.apart start distinct hop member
  refine ⟨nodup_cons.mpr ⟨apart, ?_⟩, ?_⟩
  · simpa using bound.edge_ne_node member member
  · rcases origin with isStart | ⟨other, mem, isNode⟩
    · rw [mem_singleton.mp isStart]
      exact ⟨mem_cons_self, block.elementOf_start⟩
    · rw [isNode]
      exact ⟨node_mem_aliases mem, bound.elementOf_node mem⟩

end Block

/-- The names of the columns that are carried from the table of an alias. -/
def Decisions.tableNames (picks : Decisions) (aliasName : String) : List String :=
  (picks.carried aliasName).map (carriedName aliasName)

/-- The names of the columns that the row set of a node makes for it. -/
def Decisions.ownNames (picks : Decisions) (aliasName : String) : List String :=
  picks.tableNames aliasName ++ if picks.vector.any (·.aliasName == aliasName) then [distanceName aliasName] else []

theorem Decisions.names_vectorParts (picks : Decisions) (aliasName : String) (reach : List Visible) :
    (picks.vectorParts aliasName).columns.flatMap (names reach) =
      if picks.vector.any (·.aliasName == aliasName) then [distanceName aliasName] else [] := by
  unfold vectorParts
  cases picks.vector with
  | none => rfl
  | some vector =>
    by_cases same : vector.aliasName = aliasName
    · subst same
      simp [VectorSearch.parts, names]
    · simp [same]

section

variable {block : Block σ} {picks : Decisions} (prunes : picks.Prunes block)
variable (aliasName : String)

include prunes

theorem Decisions.Prunes.tableNames : (picks.tableNames aliasName).Sublist (block.carriedNames aliasName) :=
  ((prunes aliasName).map _).trans (sublist_append_left _ _)

theorem Decisions.Prunes.ownNames : (picks.ownNames aliasName).Sublist (block.carriedNames aliasName) := by
  refine List.Sublist.append ((prunes aliasName).map _) ?_
  split
  · exact List.Sublist.refl _
  · exact nil_sublist _

end

namespace Block

theorem startRowSet_outputs : Returns (block.startRowSet env picks).result fun rowSet =>
      rowSet.name = env.rowSetName block.start.aliasName ∧
        ∀ known, rowSet.outputs known = [picks.ownNames block.start.aliasName] := by
  unfold startRowSet
  simp only [result_bind, result_pure, returns_bind, returns_ok]
  refine returns_all fun placed => ⟨trivial, fun known => ?_⟩
  simp [RowSet.outputs, outputNames, names_tableColumns, names_vectorParts, ownNames, tableNames]

/-- The names of the columns that a hop hands on. -/
def handedNames (env : Setting) (picks : Decisions) (hop : Traversal) (known : List Declared) : List String :=
  if picks.collapse then Declared.columnsOf known (env.rowSetName hop.joinFrom)
  else [carriedName hop.joinFrom .id, carriedName hop.joinFrom .kind]

/-- Tables do not stand for the row set that a hop joins from. -/
theorem names_handedColumns (block : Block Nested) (env : Setting) (picks : Decisions)
    (hop : Traversal) {joins : List (Join Statement)}
    (tables : ∀ join ∈ joins, ∃ base, join.source = .table base) (known : List Declared) :
    (handedColumns picks hop).flatMap (names
        (((block.hopSource env picks hop) :: joins.map Join.source).map (Source.visible known))) =
      handedNames env picks hop known := by
  unfold handedColumns handedNames
  split
  · next collapse =>
    have others : ((joins.map Join.source).map (Source.visible known)).filter (·.row = .source) = [] := by
      rw [map_map, filter_eq_nil_iff]
      intro visible mem
      obtain ⟨join, member, rfl⟩ := mem_map.mp mem
      obtain ⟨base, source⟩ := tables join member
      rw [Function.comp_apply, source]
      cases base <;> simp [Source.visible, Table.visible, Table.row]
    have source : (block.hopSource env picks hop).visible known =
        ⟨.source, Declared.columnsOf known (env.rowSetName hop.joinFrom)⟩ := by
      simp [hopSource, collapse, Source.visible]
    simp only [flatMap_singleton, names, map_cons, source, filter_cons, others, decide_true, if_true]
  · simp [names]

theorem hopRowSet_outputs {later : List Traversal} : Returns (block.hopRowSet env picks hop later).result fun rowSet =>
      rowSet.name = env.rowSetName hop.nodeAlias ∧ ∀ known, rowSet.outputs known = [handedNames env picks hop known ++
            (picks.tableNames hop.edgeAlias ++ picks.ownNames hop.nodeAlias)] := by
  have tables : ∀ join ∈ hop.joins env.graphId (.carried .source hop.joinFrom) false ++
        (picks.vectorParts hop.nodeAlias).joins, ∃ base, join.source = .table base := by
    refine forall_mem_append.mpr ⟨by simp [Traversal.joins], ?_⟩
    unfold Decisions.vectorParts
    split
    · split <;> simp [VectorSearch.parts]
    · simp
  unfold hopRowSet
  simp only [result_bind, result_pure, returns_bind, returns_ok]
  refine returns_all fun conditions => ⟨trivial, fun known => ?_⟩
  have handed := names_handedColumns block env picks hop tables known
  simp only [RowSet.outputs, outputNames, reachAfter, flatMap_append,
    names_tableColumns, names_vectorParts, map_nil, ownNames,
    tableNames, append_assoc, handed]

/-- The columns are carried for some aliases of the query, for none of them twice. -/
def CarriesEach (block : Block σ) (names : List String) : Prop :=
  ∃ aliases, aliases.Nodup ∧ aliases ⊆ block.aliases ∧ block.CarriesFor aliases names

theorem CarriesEach.nodup {names : List String} (carries : block.CarriesEach names)
    (apart : block.Apart letterCase) : (names.map letterCase.key).Nodup := by
  obtain ⟨aliases, distinct, bound, each⟩ := carries
  exact each.nodup apart bound distinct

theorem hop_carriesFor (prunes : picks.Prunes block) (hop : Traversal) : block.CarriesFor [hop.edgeAlias, hop.nodeAlias]
      (picks.tableNames hop.edgeAlias ++ picks.ownNames hop.nodeAlias) :=
  .cons (prunes.tableNames _) (.singleton (prunes.ownNames _))

/-- Row sets that are joined again hand on the key of the node that they start from. -/
theorem hopRowSets_carry (bound : block.Bound) (prunes : picks.Prunes block)
    (uncounted : picks.counts = none) (rejoined : picks.collapse = false)
    (members : hops ⊆ block.traversals) (known : List Declared) :
    Returns (block.hopRowSets env picks hops).result fun rowSets =>
      ∀ names ∈ outputsAfter known rowSets, block.CarriesEach names := by
  induction hops generalizing known with
  | nil => simp [hopRowSets, outputsAfter]
  | cons hop later ih =>
    obtain ⟨member, members⟩ := cons_subset.mp members
    simp only [hopRowSets, uncounted, result_bind, result_pure, returns_bind]
    apply hopRowSet_outputs.imp
    rintro rowSet ⟨-, outputs⟩
    apply (ih members _).imp
    intro rest carried
    rw [returns_ok, outputsAfter, outputs known, handedNames, rejoined]
    refine forall_mem_cons.mpr ⟨?_, carried⟩
    obtain ⟨distinct, isBound, isNode⟩ := bound.joinFrom_apart member
    have key : [carriedName hop.joinFrom .id, carriedName hop.joinFrom .kind].Sublist
        (block.carriedNames hop.joinFrom) := by
      have columns : [Column.id, .kind].Sublist (Column.ofElement .node) := by decide
      rw [carriedNames, isNode]
      exact (columns.map (carriedName hop.joinFrom)).trans (sublist_append_left _ _)
    refine ⟨_, distinct, ?_, .cons key (hop_carriesFor prunes hop)⟩
    intro aliasName mem
    simp only [mem_cons, not_mem_nil, or_false] at mem
    rcases mem with rfl | rfl | rfl
    · exact isBound
    · exact edge_mem_aliases member
    · exact node_mem_aliases member

/-- Row sets of a collapsed chain hand on everything that comes before them. -/
theorem collapsedRowSets_carry (prunes : picks.Prunes block)
    (uncounted : picks.counts = none) (collapse : picks.collapse = true) {previous : String}
    (linear : isLinearFrom previous hops = true) {supplied columns : List String}
    (carries : block.CarriesFor supplied columns) (known : List Declared) :
    Returns (block.hopRowSets env picks hops).result fun rowSets =>
      ∀ names ∈ outputsAfter (⟨env.rowSetName previous, columns⟩ :: known) rowSets,
        ∃ aliases, aliases.Sublist (supplied ++ hops.flatMap fun hop => [hop.edgeAlias, hop.nodeAlias]) ∧
          block.CarriesFor aliases names := by
  induction hops generalizing previous supplied columns known with
  | nil => simp [hopRowSets, outputsAfter]
  | cons hop later ih =>
    simp only [isLinearFrom, Bool.and_eq_true, beq_iff_eq] at linear
    obtain ⟨rfl, linear⟩ := linear
    simp only [hopRowSets, uncounted, result_bind, result_pure, returns_bind]
    apply hopRowSet_outputs.imp
    rintro rowSet ⟨name, outputs⟩
    have extended := carries.append (hop_carriesFor prunes hop)
    have made : rowSet.outputs (⟨env.rowSetName hop.joinFrom, columns⟩ :: known) =
        [columns ++ (picks.tableNames hop.edgeAlias ++ picks.ownNames hop.nodeAlias)] := by
      rw [outputs, handedNames, collapse]
      simp [Declared.columnsOf]
    have declared : rowSet.declared (⟨env.rowSetName hop.joinFrom, columns⟩ :: known) = ⟨env.rowSetName hop.nodeAlias,
          columns ++ (picks.tableNames hop.edgeAlias ++ picks.ownNames hop.nodeAlias)⟩ := by
      rw [declared, made, name]
      rfl
    apply (ih linear extended _).imp
    intro rest carried
    rw [returns_ok, outputsAfter, made, declared]
    rw [append_assoc] at carried
    refine forall_mem_cons.mpr ⟨⟨_, ?_, extended⟩, carried⟩
    exact (sublist_append_left _ _).append_left supplied

theorem countRowSet_outputs {counts : Counts} : Returns (block.countRowSet env picks hop counts).result fun rowSet =>
      ∀ known, rowSet.outputs known =
        [[carriedName block.start.aliasName .id, carriedName block.start.aliasName .kind] ++
          counts.columns.map fun entry => countName entry.1] := by
  unfold countRowSet
  simp only [result_bind, result_pure, returns_bind, returns_ok]
  refine returns_all fun conditions => fun known => ?_
  simp only [RowSet.outputs, outputNames, flatMap_append, names_named, map_nil]
  rfl

theorem nodup_countNames {start node : String} {index : Nat} {projections : List Projection}
    {columns : List (Nat × Bool)} (letterCase : LetterCase)
    (found : countColumns start node index projections = some columns) :
    (([carriedName start .id, carriedName start .kind] ++
      columns.map fun entry => countName entry.1).map letterCase.key).Nodup := by
  have counts : (columns.map fun entry => countName entry.1).Nodup := by
    refine pairwise_map.mpr ((countColumns_sorted found).2.imp fun before same => ?_)
    exact absurd (countName_injective same) (Nat.ne_of_lt before)
  have sameCounts : (columns.map fun entry => countName entry.1).map letterCase.key =
      columns.map fun entry => countName entry.1 := by
    rw [map_map]
    exact map_congr_left fun entry _ => key_countName entry.1
  have key : [carriedName (letterCase.key start) .id, carriedName (letterCase.key start) .kind].Nodup := by
    simpa using (carriedName_injective _).ne (by decide : Column.id ≠ .kind)
  rw [map_append, sameCounts, nodup_append]
  simp only [map_cons, map_nil, LetterCase.key_carriedName]
  refine ⟨key, counts, ?_⟩
  intro name ofKey other isCount same
  obtain ⟨entry, -, rfl⟩ := mem_map.mp isCount
  rcases mem_pair.mp ofKey with rfl | rfl
  · exact countName_ne_carriedName entry.1 _ (.inl rfl) (congrArg Text.lowerAscii same.symm)
  · exact countName_ne_carriedName entry.1 _ (.inr rfl) (congrArg Text.lowerAscii same.symm)

/-- What row sets output has the property, whichever form they have. -/
structure Outputs (block : Block σ) (property : List String → Prop) : Prop where
  carried : ∀ names, block.CarriesEach names → property names
  counted : ∀ node columns, countColumns block.start.aliasName node 0 block.projection = some columns →
      property ([carriedName block.start.aliasName .id, carriedName block.start.aliasName .kind] ++
        columns.map fun entry => countName entry.1)
  walked : ∀ walk : Walk, ∀ picks : Decisions, walk.hop ∈ block.traversals →
    picks.Prunes block → property (walk.outputs picks block.start.aliasName)

section Chain

variable {opts : Options} {plan : Plan} {property : List String → Prop}
variable (analyzed : (block.analyzeChain opts).result = .ok (picks, plan))
variable (prunes : picks.Prunes block) (holds : block.Outputs property)

include analyzed prunes holds

/-- The row sets of traversals have one of three forms. -/
theorem hopRowSets_outputs : Returns (block.hopRowSets env picks block.traversals).result fun rowSets =>
      ∀ names ∈ outputsAfter [⟨env.rowSetName block.start.aliasName, picks.ownNames block.start.aliasName⟩]
          rowSets, property names := by
  obtain ⟨bound, -, vector, decided, -⟩ := (block.analyzeChain_ensures opts).of_ok analyzed
  cases found : picks.counts with
  | some counts =>
    obtain ⟨hop, counted⟩ := counted_of_analyzeChain analyzed found
    simp only [counted.one.traversals, hopRowSets, found, counted.nodeAlias, if_true,
      result_bind, result_pure, returns_bind, returns_ok]
    apply countRowSet_outputs.imp
    intro rowSet outputs
    rw [outputsAfter, outputsAfter, outputs, append_nil]
    exact forall_mem_singleton.mpr (holds.counted _ _ counted.columns)
  | none =>
    cases collapse : picks.collapse with
    | false =>
      apply (hopRowSets_carry bound prunes found collapse (List.Subset.refl _) _).imp
      exact fun rowSets carried names mem => holds.carried names (carried names mem)
    | true =>
      have linear : isLinearFrom block.start.aliasName block.traversals = true := by
        have collapsible : block.isCollapsible = true := by rw [← collapse, decided]; rfl
        simp only [isCollapsible, Bool.and_eq_true] at collapsible
        exact collapsible.1.1.1.1.2
      have start : block.CarriesFor [block.start.aliasName]
          (picks.ownNames block.start.aliasName) := .singleton (prunes.ownNames _)
      apply (collapsedRowSets_carry prunes found collapse linear start _).imp
      intro rowSets carried names mem
      obtain ⟨aliases, included, each⟩ := carried names mem
      exact holds.carried names ⟨aliases, bound.nodup_aliases.sublist included, included.subset, each⟩

theorem chainLevel_outputs : Returns (block.chainLevel env picks).result fun level =>
      ∀ names ∈ outputsAfter [] level.rowSets, property names := by
  have start : block.CarriesFor [block.start.aliasName]
      (picks.ownNames block.start.aliasName) := .singleton (prunes.ownNames _)
  unfold chainLevel
  simp only [result_bind, result_pure, returns_bind, returns_ok]
  apply startRowSet_outputs.imp
  rintro first ⟨name, outputs⟩
  apply (hopRowSets_outputs analyzed prunes holds).imp
  intro hops ofHops
  refine returns_all fun select => ?_
  have declared : first.declared [] = ⟨env.rowSetName block.start.aliasName, picks.ownNames block.start.aliasName⟩ := by
    rw [declared, outputs, name]
    rfl
  rw [outputsAfter, outputs, declared]
  refine forall_mem_cons.mpr ⟨holds.carried _ ⟨_, nodup_singleton _, ?_, start⟩, ofHops⟩
  simp [aliases]

end Chain

/-- A chain is made only if its columns exist, and then its row sets carry them. -/
theorem searchedChain_outputs {property : List String → Prop} {vector : Option VectorSearch}
    (searched : (block.analyzeReferences env.opts.dialect).result = .ok vector)
    (selects : block.SelectsPresent) (holds : block.Bound → block.Outputs property) :
    Returns (block.chainLevel env (block.chainDecisions env.opts vector)).result
      fun level => ∀ names ∈ outputsAfter [] level.rowSets, property names := by
  have analyzed := analyzeChain_of_references searched
  have bound := ((block.analyzeReferences_ensures env.opts.dialect).of_ok searched).1
  cases made : (block.chainLevel env (block.chainDecisions env.opts vector)).result with
  | error error => trivial
  | ok level =>
    have has := (has_of_chainLevel analyzed selects).of_ok made
    have prunes := chainDecisions_prunes env.opts vector has
    exact (chainLevel_outputs analyzed prunes (holds bound)).of_ok made

end Block

namespace Walk

variable {walk : Walk}

/-- The row set of walks carries its two ends under names with a separator, and its depth and path
under names without one. -/
theorem nodup_outputs (bound : block.Bound) (member : walk.hop ∈ block.traversals)
    (prunes : picks.Prunes block) (apart : block.Apart letterCase) :
    ((walk.outputs picks block.start.aliasName).map letterCase.key).Nodup := by
  have ends : block.CarriesFor [block.start.aliasName, walk.hop.nodeAlias]
      (picks.tableNames block.start.aliasName ++ picks.tableNames walk.hop.nodeAlias) :=
    .cons (prunes.tableNames _) (.singleton (prunes.tableNames _))
  have mem : [block.start.aliasName, walk.hop.nodeAlias] ⊆ block.aliases :=
    cons_subset.mpr ⟨mem_cons_self, by simpa using node_mem_aliases member⟩
  have distinct : [block.start.aliasName, walk.hop.nodeAlias].Nodup := by simpa using bound.start_ne_node member
  have depth : letterCase.key depthName = depthName := LetterCase.key_eq_self rfl
  have path : letterCase.key pathName = pathName := LetterCase.key_eq_self rfl
  have spelled : (depthName :: if walk.walk.tracksPath then [pathName] else []).map letterCase.key =
      depthName :: if walk.walk.tracksPath then [pathName] else [] := by
    split <;> simp [depth, path]
  have trail : (depthName :: if walk.walk.tracksPath then [pathName] else []).Nodup := by
    split <;> simp [depthName, pathName]
  have plain : ∀ name ∈ depthName :: if walk.walk.tracksPath then [pathName] else [], '_' ∉ name.toList := by
    split <;> simp [depthName, pathName]
  change ((picks.tableNames block.start.aliasName ++ picks.tableNames walk.hop.nodeAlias ++ _).map letterCase.key).Nodup
  rw [map_append, spelled, nodup_append]
  refine ⟨ends.nodup apart mem distinct, trail, ?_⟩
  rintro key carried _ ofTrail rfl
  obtain ⟨name, ofEnds, rfl⟩ := mem_map.mp carried
  obtain ⟨aliasName, -, named⟩ := ends.exists_alias ofEnds
  exact plain _ ofTrail (separator_mem named)

theorem startMember_outputs : Returns (walk.startMember block env picks).result fun select =>
      ∀ known, select.outputNames known = walk.outputs picks block.start.aliasName := by
  unfold startMember
  simp only [result_bind, result_pure, returns_bind, returns_ok]
  refine returns_all fun placed => fun known => ?_
  simp [outputNames, names_tableColumns, names_trailColumns, outputs]

theorem stepMembers_outputs {steps : List (Traversal × Conditions)}
    (nodes : ∀ step ∈ steps, step.1.nodeAlias = walk.hop.nodeAlias) :
    Returns (walk.stepMembers block env picks steps).result fun selects =>
      ∀ select ∈ selects, ∀ known, select.outputNames known = walk.outputs picks block.start.aliasName := by
  refine stepMembers_returns fun step mem => ?_
  unfold stepMember
  simp only [result_bind, result_pure, returns_bind, returns_ok]
  refine returns_all fun conditions known => ?_
  simp [outputNames, names_named, names_tableColumns, names_trailColumns, nodes step mem, Walk.outputs]

end Walk

namespace Block

theorem Apart.outputs (apart : block.Apart letterCase) (bound : block.Bound) :
    block.Outputs fun names => (names.map letterCase.key).Nodup where
  carried _ carries := carries.nodup apart
  counted _ _ found := nodup_countNames letterCase found
  walked walk _ mem prunes := walk.nodup_outputs bound mem prunes apart

theorem walkLevel_outputs {property : List String → Prop} (isWalk : block.isWalk = true)
    (prunes : picks.Prunes block) (holds : block.Outputs property) :
    Returns (block.walkLevel env picks).result fun level =>
      ∀ names ∈ outputsAfter [] level.rowSets, property names := by
  unfold walkLevel
  simp only [result_bind, result_pure, returns_bind, returns_ok]
  apply (walk_ensures isWalk).returns.imp
  intro walk member
  apply Walk.startMember_outputs.imp
  intro first firstOutputs
  apply (Walk.stepMembers_outputs fun step mem =>
    (walk.isStep_of_mem env.opts.dialect.capabilities.walk step mem).nodeAlias).imp
  intro further furtherOutputs
  refine returns_all fun select => ?_
  have walked := holds.walked walk picks member prunes
  simp only [outputsAfter, outputs, append_nil]
  rw [forall_mem_cons, firstOutputs]
  refine ⟨walked, fun names mem => ?_⟩
  obtain ⟨select, inFurther, rfl⟩ := mem_map.mp mem
  rw [furtherOutputs select inFurther]
  exact walked

theorem selectsPresent_withoutWalks : block.withoutWalks.SelectsPresent ↔ block.SelectsPresent := by
  simp only [SelectsPresent, Has, elementOf_withoutWalks]
  rfl

theorem compile_outputs {property : List String → Prop} (selects : block.SelectsPresent)
    (plain : block.withoutWalks.Bound → block.withoutWalks.Outputs property)
    (holds : block.Bound → block.Outputs property) :
    Returns (block.compile env).result fun compiled =>
      ∀ names ∈ outputsAfter [] compiled.1.rowSets, property names := by
  refine compile_returns (fun level => ∀ names ∈ outputsAfter [] level.rowSets, property names)
    (fun _ vector searched => ?_) (fun _ isWalk searched => ?_) (fun _ vector searched => ?_)
  · exact searchedChain_outputs searched (selectsPresent_withoutWalks.mpr selects) plain
  · have bound := ((block.analyzeReferences_ensures env.opts.dialect).of_ok searched).1
    exact walkLevel_outputs isWalk (fun _ => List.Sublist.refl _) (holds bound)
  · exact searchedChain_outputs searched selects holds

theorem compile_distinct (selects : block.SelectsPresent) (apart : block.Apart letterCase) :
    Returns (block.compile env).result fun compiled => compiled.1.DistinctColumns letterCase :=
  compile_outputs selects (block.apart_withoutWalks.mpr apart).outputs apart.outputs

/-- A query that is compiled has passed the check of its carried names. -/
theorem compile_apart (block : Block Nested) (env : Setting) :
    Returns (block.compile env).result fun _ => block.Apart .significant := by
  have apart (block : Block Nested) {vector : Option VectorSearch}
      (searched : (block.analyzeReferences env.opts.dialect).result = .ok vector) :
      block.Apart .significant :=
    (analyzeReferences_apart env.opts.dialect).of_ok searched
  exact compile_returns (fun _ => block.Apart .significant)
    (fun _ _ searched => returns_all fun _ => block.apart_withoutWalks.mp (apart _ searched))
    (fun _ _ searched => returns_all fun _ => apart _ searched)
    (fun _ _ searched => returns_all fun _ => apart _ searched)

end Block

/-- What is known of the columns of a level that is made for a query. The fields that the query
selects beside a projection are assumed to exist, as nothing checks them. -/
def Query.NamesColumns (query : Query) (level : Level Statement) : Prop :=
  query.block.SelectsPresent → level.DistinctColumns .significant ∧
      (query.block.Apart .ignored → level.DistinctColumns .ignored)

/-- The columns of every row set of a compiled query are distinct as they are written. They are
distinct for an engine that ignores letter case if the names that the aliases carry are. -/
theorem columns_distinct (opts : Options) (graphId tag : String) (query : Query) :
    (∀ statement plan, (query.statement opts graphId).result = .ok (statement, plan) →
        statement.EachLevel (fun _ => Query.NamesColumns) graphId query) ∧
      ∀ level plan,
        ((query.nested opts).compile { opts, graphId, tag }).result = .ok (level, plan) →
          (Statement.mk level).EachLevel (fun _ => Query.NamesColumns) graphId query := by
  have each (query : Query) (env : Setting) (level : Level Statement) (plan : Plan)
      (compiled : ((query.nested opts).compile env).result = .ok (level, plan)) :
      query.NamesColumns level := by
    intro selects
    have present : (query.nested opts).SelectsPresent := selects
    have written := ((query.nested opts).compile_apart env).of_ok compiled
    refine ⟨(Block.compile_distinct present written).of_ok compiled, fun apart => ?_⟩
    have unquoted : (query.nested opts).Apart .ignored := apart
    exact (Block.compile_distinct present unquoted).of_ok compiled
  have stated : Ensures (query.statement opts graphId).result fun compiled =>
      compiled.1.EachLevel (fun _ => Query.NamesColumns) graphId query :=
    Query.statement_eachLevel (fun query graphId => each query { opts, graphId }) query graphId
  have tagged : Ensures ((query.nested opts).compile { opts, graphId, tag }).result
      fun compiled => (Statement.mk compiled.1).EachLevel (fun _ => Query.NamesColumns) graphId query :=
    Query.compile_eachLevel (fun query graphId => each query { opts, graphId }) (each query _)
  exact ⟨fun _ _ compiled => stated.of_ok compiled, fun _ _ compiled => tagged.of_ok compiled⟩

/-- Where the acquaintances of persons work. -/
def employers : Query :=
  .mk { ((Block.ofKind "p" "person").traverse (.outwardFrom "p" "e" "knows" "f" "person")).traverse
      (.outwardFrom "f" "w" "works_at" "c" "company") with
    selected := some [⟨.ofColumn "p" "id", "person"⟩, ⟨.ofColumn "c" "id", "company"⟩] }

theorem employers_columns_distinct :
    ∃ level plan,
      ((employers.nested {}).compile
          { opts := {}, graphId := "people", tag := "s1_" }).result = .ok (level, plan) ∧
        employers.block.SelectsPresent ∧ employers.block.Apart .ignored ∧
        level.DistinctColumns .ignored := by
  have selects : employers.block.SelectsPresent := fun mem => absurd rfl mem
  have apart : employers.block.Apart .ignored := by decide +kernel
  refine ⟨_, _, rfl, selects, apart, ?_⟩
  cases (columns_distinct {} "people" "s1_" employers).2 _ _ rfl with
  | mk own => exact (own selects).2 apart

/-- The edge of a hop is named like the node before it, up to letter case and an underscore. -/
def capitalized : Query :=
  .mk ((Block.ofKind "p_from" "person").traverse (.outwardFrom "p_from" "P" "knows" "x" "person"))

/-- Beside a projection, a column of edges is selected from a node. -/
def misselected : Query :=
  .mk { (Block.ofKind "p_from" "person").traverse
      (.outwardFrom "p_from" "e" "knows" "p" "person") with
    projection := [⟨"id", .field (.ofColumn "p" "id")⟩]
    selected := some [⟨.ofColumn "p" "from_id", "origin"⟩] }

theorem columns_collide :
    (∃ level plan,
      ((capitalized.nested {}).compile { opts := {}, graphId := "people" }).result =
          .ok (level, plan) ∧
        ¬ level.DistinctColumns .ignored) ∧
      ∃ level plan,
        ((misselected.nested {}).compile { opts := {}, graphId := "people" }).result =
            .ok (level, plan) ∧
          ¬ level.DistinctColumns .significant := by
  refine ⟨⟨_, _, rfl, fun distinct => ?_⟩, ⟨_, _, rfl, fun distinct => ?_⟩⟩
  · have names := distinct _ (List.mem_cons_of_mem _ List.mem_cons_self)
    revert names
    decide
  · have names := distinct _ (List.mem_cons_of_mem _ List.mem_cons_self)
    revert names
    decide

end GraphSql
