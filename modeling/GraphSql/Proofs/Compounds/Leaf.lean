import GraphSql.Proofs.Naming

namespace GraphSql

open Field List Traced

namespace Predicate

variable {σ τ : Type}

theorem topSimilarities_map_eq_nil (f : σ → τ) (predicate : Predicate σ)
    (without : predicate.containsSimilarity = false) : (predicate.map f).topSimilarities = [] := by
  induction predicate with
  | and operands ih =>
    simp only [containsSimilarity, anyPart, isSimilarity, anyPartOf_eq_any, Bool.false_or,
      any_eq_false, Bool.not_eq_true] at without
    simpa [map, topSimilarities, mapAll_eq_map, topSimilaritiesOf_eq_flatMap] using
      fun operand (mem : operand ∈ operands) => ih operand mem (without operand mem)
  | similarity search => simp [containsSimilarity, anyPart, isSimilarity] at without
  | _ => simp [map, topSimilarities]

end Predicate

variable {aliasName : String} {block : Block Nested} {env : Setting}

namespace Block

variable {σ : Type}

/-- The row sets of the query can move to the front of a compound: there is no hop, no search by
similarity, and no clause besides the SELECT list. -/
structure Hoistable (block : Block σ) : Prop where
  traversals : block.traversals = []
  similarities : block.similarities = []
  groupBy : block.groupBy = []
  having : block.having = none
  orderBy : block.orderBy = []
  limit : block.limit = none
  offset : block.offset = none

theorem hoistable_map {τ : Type} {block : Block σ} (movable : block.unhoistable = []) (f : σ → τ) :
    (block.map f).Hoistable := by
  unfold unhoistable at movable
  simp only [append_eq_nil_iff, ite_eq_left_iff, ite_eq_right_iff, cons_ne_nil, imp_false,
    not_not, Bool.not_eq_true, Bool.and_eq_true, List.isEmpty_iff, Option.isNone_iff_eq_none]
    at movable
  obtain ⟨⟨⟨⟨traversals, -⟩, similarity⟩, groupBy, having⟩, ⟨orderBy, limit⟩, offset⟩ := movable
  refine ⟨traversals, ?_, groupBy, ?_, orderBy, limit, offset⟩
  · rw [similarities, flatMap_eq_nil_iff]
    intro filter member
    obtain ⟨original, mem, rfl⟩ := mem_map.mp member
    refine Predicate.topSimilarities_map_eq_nil f original.predicate ?_
    rw [any_eq_false] at similarity
    have without := similarity original.predicate (mem_append_left _ (mem_map_of_mem mem))
    simpa using without
  · change block.having.map _ = none
    rw [having]
    rfl

/-- Whatever a filter reads is bound. -/
structure Resolved (block : Block σ) (filter : Filter σ) : Prop where
  itself : block.binding? filter.aliasName ≠ none
  fields : ∀ field ∈ filter.predicate.fields, block.binding? field.aliasName ≠ none

theorem checkFilter_resolved (block : Block σ) (filter : Filter σ) :
    Returns (block.checkFilter filter) fun _ => block.Resolved filter := by
  have fields : Returns (filter.predicate.fields.forM (block.checkField .predicate)) fun _ =>
      ∀ field ∈ filter.predicate.fields, block.binding? field.aliasName ≠ none := by
    refine returns_forM fun field _ => ?_
    unfold checkField
    split
    · trivial
    · next bound => exact returns_all fun _ => by simpa using bound
  unfold checkFilter
  split
  · trivial
  · next found =>
    have resolved : Returns (filter.predicate.fields.forM (block.checkField .predicate)) fun _ =>
        block.Resolved filter := fields.imp fun _ each => ⟨by simp [found], each⟩
    split
    · trivial
    · trivial
    · simpa using resolved

/-- The filters of a query that has passed the checks read only what is bound. -/
theorem validate_resolved (block : Block σ) :
    Returns block.validate fun _ => ∀ filter ∈ block.filters, block.Resolved filter := by
  have references : Returns block.checkReferences fun _ => ∀ filter ∈ block.filters, block.Resolved filter := by
    unfold checkReferences
    simp only [returns_bind]
    apply (returns_forM fun filter _ => block.checkFilter_resolved filter).imp
    intro _ resolved
    exact returns_all fun _ => returns_all fun _ => returns_all fun _ =>
      returns_all fun _ => returns_all fun _ => resolved
  unfold validate
  simp only [returns_bind]
  refine returns_all fun _ => ?_
  apply references.imp
  intro _ resolved
  exact returns_all fun _ => returns_all fun _ => resolved

namespace Hoistable

variable {block : Block σ} (hoistable : block.Hoistable)

include hoistable

theorem eq_start (bound : block.binding? aliasName ≠ none) : aliasName = block.start.aliasName := by
  unfold binding? at bound
  split at bound
  · next same => exact same.symm
  · simp [hoistable.traversals, bindingIn] at bound

theorem placement_eq {filter : Filter σ} (resolved : block.Resolved filter) :
    block.placement filter = some block.start.aliasName := by
  have owner : ∀ aliasName, block.binding? aliasName ≠ none → block.ownerOf aliasName = some block.start.aliasName := by
    intro aliasName bound
    obtain rfl := hoistable.eq_start bound
    simp [ownerOf, binding?]
  unfold placement
  rw [owner _ resolved.itself, if_pos]
  rw [all_eq_true]
  intro field mem
  rw [owner _ (resolved.fields field mem)]
  exact beq_self_eq_true _

theorem placedAt_none (resolved : ∀ filter ∈ block.filters, block.Resolved filter) :
    block.placedAt block.placements none = [] := by
  rw [eq_nil_iff_forall_not_mem]
  intro predicate placed
  obtain ⟨filter, mem, -, late⟩ := placedAt_spec placed
  rw [hoistable.placement_eq (resolved filter mem)] at late
  contradiction

theorem analyzeReferences_returns (dialect : Dialect) : Returns (block.analyzeReferences dialect).result fun vector =>
      vector = none ∧ ∀ filter ∈ block.filters, block.Resolved filter := by
  rw [result_analyzeReferences, returns_bind]
  apply block.validate_resolved.imp
  intro _ resolved
  have found : Returns (block.findSimilarity dialect) fun vector => vector = none := by
    unfold findSimilarity
    rw [hoistable.similarities]
    split
    · trivial
    · split
      · trivial
      · rfl
  apply found.imp
  rintro _ rfl
  exact ⟨rfl, resolved⟩

end Hoistable

def leafDecisions (block : Block σ) (opts : Options) : Decisions := block.chainDecisions opts none

/-- The level of a leaf: one row set, and a SELECT that does nothing but read it. -/
def leafLevel (block : Block Nested) (env : Setting) (start : RowSet Statement)
    (columns : List OutputColumn) : Level Statement where
  rowSets := [start]
  select :=
    { columns
      source := .relation (env.rowSetName block.start.aliasName) none }

theorem Hoistable.counts_eq {block : Block σ} (hoistable : block.Hoistable) (opts : Options) :
    (block.leafDecisions opts).counts = none := by
  change block.counts _ _ = none
  rw [Block.counts, hoistable.traversals]

theorem Hoistable.countTerm_eq {block : Block σ} (hoistable : block.Hoistable) (env : Setting)
    (opts : Options) (index : Nat) :
    block.countTerm env (block.leafDecisions opts) index = none := by
  rw [countTerm, hoistable.counts_eq]

/-- Nothing but the SELECT list is left of the clauses of a leaf. -/
theorem Hoistable.result_chainLevel (hoistable : block.Hoistable)
    (resolved : ∀ filter ∈ block.filters, block.Resolved filter) (env : Setting) :
    (block.chainLevel env (block.leafDecisions env.opts)).result = do
      let start ← (block.startRowSet env (block.leafDecisions env.opts)).result
      let columns ← (block.chainOutput env (block.leafDecisions env.opts)).columns block
      return block.leafLevel env start columns := by
  have collapse : (block.leafDecisions env.opts).collapse = false := by
    change block.isCollapsible = false
    simp [isCollapsible, hoistable.traversals]
  have placed (scope : Scope) : block.lowerPlaced env.opts.dialect
      (block.leafDecisions env.opts) scope none = pure [] := by
    change Predicate.lowerAll _ _ (block.placedAt block.placements none) = _
    rw [hoistable.placedAt_none resolved]
    rfl
  have nearest : (block.chainOutput env (block.leafDecisions env.opts)).nearest = none := rfl
  have bounds : (block.chainOutput env (block.leafDecisions env.opts)).bounds block = none :=
    Output.bounds_eq_none nearest hoistable.limit hoistable.offset
  have orderBy : (block.chainOutput env (block.leafDecisions env.opts)).orderBy block.orderBy = .ok [] := by
    rw [hoistable.orderBy]
    rfl
  unfold chainLevel
  simp only [result_bind, result_pure, result_chainSelect, hoistable.counts_eq, collapse, placed,
    bounds, orderBy, hoistable.traversals, hoistable.groupBy, hoistable.having, hopRowSets,
    Output.groupBy, Output.having, Option.isNone_none, if_true, Bool.false_eq_true, if_false,
    map_nil, bind_assoc]
  rfl

theorem Hoistable.result_compile (hoistable : block.Hoistable) (env : Setting) : (block.compile env).result = do
      let _ ← (block.analyzeReferences env.opts.dialect).result
      let picks := block.leafDecisions env.opts
      let plan := block.chainPlan block.placements none none
      let start ← (block.startRowSet env picks).result
      let columns ← (block.chainOutput env picks).columns block
      (block.leafLevel env start columns).select.check plan
      return (block.leafLevel env start columns, plan) := by
  have route : block.compileLevel env = block.compileChain env := by
    have noSingleHop : block.isSingleHop = false := by simp [isSingleHop, hoistable.traversals]
    have noWalk : block.isWalk = false := by simp [isWalk, hoistable.traversals]
    simp [compileLevel, noSingleHop, noWalk]
  have checked := hoistable.analyzeReferences_returns env.opts.dialect
  simp only [compile, route, compileChain, result_bind, result_pure, result_analyzeChain]
  cases analyzed : (block.analyzeReferences env.opts.dialect).result with
  | error error => rfl
  | ok vector =>
    obtain ⟨rfl, resolved⟩ := checked.of_ok analyzed
    have level := hoistable.result_chainLevel resolved env
    change (do
      let compiled ← (do
        let value ← (block.chainLevel env (block.leafDecisions env.opts)).result
        Except.ok (value, block.chainPlan block.placements none (block.leafDecisions env.opts).counts))
      compiled.1.select.check compiled.2
      Except.ok (compiled.1, compiled.2)) = _
    simp only [level, hoistable.counts_eq, bind_assoc]
    rfl

end Block

/-- The term is a carried column, or it is extracted or aggregated from one. -/
def Term.IsCarried : Term → Prop
  | .column row name => IsJoined row.text ∧ IsJoined name
  | .extract document _ _ => IsCarried document
  | .aggregate _ argument => IsCarried argument
  | _ => False

def OutputColumn.IsCarried : OutputColumn → Prop
  | .plain term | .quoted term _ => term.IsCarried
  | .named .. | .every _ => False

section Columns

variable {relations : Relations} {scope : Scope} {field : Field} {output : Output}

/-- The relations are row sets that carry columns under names of their own. -/
def Relations.AreJoined (relations : Relations) : Prop :=
  ∀ carried ∈ relations.carried, IsJoined carried.relation ∧ IsShaped carried.aliasName

/-- The scope reads nothing but carried columns. -/
def Scope.IsCarried (scope : Scope) : Prop := ∀ aliasName column, Returns (scope.column aliasName column) Term.IsCarried

theorem Relations.AreJoined.lookup (joined : relations.AreJoined) (aliasName : String) :
    Returns (relations.lookup aliasName) fun carried => ∀ column, (Relations.term carried column).IsCarried := by
  apply (relations.lookup_ensures aliasName).returns.imp
  rintro carried ⟨member, -⟩ column
  obtain ⟨relation, shaped⟩ := joined carried member
  exact ⟨relation, isJoined_carriedName shaped column⟩

theorem Relations.AreJoined.isCarried_scope (joined : relations.AreJoined) (aggregates : Bool) :
    (relations.scope aggregates).IsCarried := by
  intro aliasName wanted
  change Returns (relations.column aliasName wanted) _
  unfold Relations.column
  simp only [returns_bind]
  apply (joined.lookup aliasName).imp
  intro carried isCarried
  refine returns_all fun _ => ?_
  split
  · exact isCarried wanted
  · trivial

theorem Field.read_isCarried (isCarried : scope.IsCarried) (extraction : Extraction) :
    Returns (field.read scope extraction) Term.IsCarried := by
  unfold read
  rw [returns_bind]
  refine returns_all fun target => ?_
  cases target with
  | whole => trivial
  | column column => exact isCarried _ column
  | property pointer =>
    rw [returns_bind]
    exact (isCarried _ .props).imp fun _ document => document

theorem Aggregate.lower_isCarried (isCarried : scope.IsCarried) (aggregate : Aggregate) :
    Returns (aggregate.lower scope) Term.IsCarried := by
  have argument : Returns (aggregate.argument scope) Term.IsCarried := by
    unfold Aggregate.argument
    rw [returns_bind]
    refine returns_all fun target => ?_
    split
    · exact isCarried _ .id
    · exact isCarried _ .id
    · trivial
    · exact read_isCarried isCarried _
    · exact read_isCarried isCarried _
    · rw [returns_bind]
      exact returns_all fun _ => read_isCarried isCarried _
    · rw [returns_bind]
      exact returns_all fun _ => read_isCarried isCarried _
    · exact read_isCarried isCarried _
    · exact read_isCarried isCarried _
  unfold Aggregate.lower
  split
  · rw [returns_bind]
    exact argument.imp fun _ carried => carried
  · trivial

namespace Output

theorem columns_isCarried {σ : Type} (joined : output.relations.AreJoined)
    (nearest : output.nearest = none) (uncomputed : ∀ index, output.computed index = none)
    (block : Block σ) :
    Returns (output.columns block) fun columns => ∀ column ∈ columns, column.IsCarried := by
  have gives : output.GivesColumns OutputColumn.IsCarried := by
    refine ⟨fun _ _ => read_isCarried (joined.isCarried_scope false) _, ?_, ?_⟩
    · intro aliasName
      simp only [Relations.allColumns, returns_bind, returns_pure]
      apply (joined.lookup aliasName).imp
      intro carried isCarried
      exact forall_mem_map.mpr fun wanted _ => ⟨isCarried wanted, fun _ => isCarried wanted⟩
    · simp [distanceOf, nearest]
  refine columns_each gives (fun index term computed => ?_) (fun expression _ => ?_) block
  · simp [uncomputed] at computed
  · exact expression.lower_isCarried (joined.isCarried_scope true)

end Output

end Columns

/-- One row set of the given name, and a SELECT that does nothing but read its columns. -/
structure Level.IsLeaf (name : String) (level : Level Statement) : Prop where
  isJoined : IsJoined name
  rowSets : ∃ member, level.rowSets = [{ name, members := [member] }]
  select : ∃ columns : List OutputColumn, (∀ column ∈ columns, column.IsCarried) ∧
    level.select = { columns, source := .relation name none }

namespace Block

theorem relations_areJoined {σ : Type} {block : Block σ} (isTag : IsTag env.tag) (shaped : block.Shaped)
    (picks : Decisions) : (block.relations env picks).AreJoined := by
  intro carried member
  obtain ⟨aliasName, mem, rfl⟩ := mem_map.mp member
  exact ⟨isJoined_rowSetName isTag (shaped.readFrom picks aliasName), shaped.alias aliasName (mem_filter.mp mem).1⟩

/-- What a leaf is compiled into has no clause that another leaf could take for its own. -/
theorem Hoistable.compile_isLeaf (hoistable : block.Hoistable) (isTag : IsTag env.tag) :
    Returns (block.compile env).result fun (level, _) => level.IsLeaf (env.rowSetName block.start.aliasName) := by
  rw [hoistable.result_compile]
  simp only [returns_bind, returns_pure]
  apply (block.analyzeReferences_ensures env.opts.dialect).returns.imp
  rintro _ ⟨bound, -⟩
  have joined := relations_areJoined isTag bound.shaped (block.leafDecisions env.opts)
  have started : Returns (block.startRowSet env (block.leafDecisions env.opts)).result
      fun start => ∃ member, start = { name := env.rowSetName block.start.aliasName, members := [member] } := by
    unfold startRowSet
    simp only [result_bind, result_pure, returns_bind, returns_ok]
    exact returns_all fun placed => ⟨_, rfl⟩
  apply started.imp
  rintro _ ⟨member, rfl⟩
  apply (Output.columns_isCarried joined rfl (hoistable.countTerm_eq env _) block).imp
  intro columns isCarried
  refine returns_all fun _ => ⟨isJoined_rowSetName isTag bound.shaped.start, ?_, ?_⟩
  · exact ⟨member, rfl⟩
  · exact ⟨columns, isCarried, rfl⟩

end Block

end GraphSql
