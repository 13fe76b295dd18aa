import GraphSql.Proofs.Lowering.Walk
import GraphSql.Proofs.Semantics.Datum

namespace GraphSql.Walk

open Context Direction List Multiset Traced Traversal

variable {hop : Traversal} {ν : Type}

section

variable (walk : Walk) (block : Block Nested) (env : Setting) (picks : Decisions)

/-- The member that extends walks along a hop, with the predicates that are placed there. -/
def stepSelect (placed : Conditions) (hop : Traversal) (guards : Conditions) : Select Statement where
  columns :=
    (picks.carried block.start.aliasName).map (fun column =>
      .named (.column .walk (carriedName block.start.aliasName column)) (carriedName block.start.aliasName column)) ++
      block.tableColumns picks hop.nodeAlias ++
      walk.trailColumns (.successor (.column .walk depthName)) (.pathExtend (.column .walk pathName) NodeKey.node.id)
  source := .relation (rowSetName env) (some .walk)
  joins := hop.joins env.graphId (.carried .walk hop.nodeAlias) env.opts.dialect.capabilities.fixesJoinOrder
  conditions := hop.kindConditions ++ block.hopVisibility picks ++ placed ++ walk.stepConditions ++ guards

/-- The members of a strategy. -/
def stepSelects (placed : Conditions) (strategy : WalkStrategy) : List (Select Statement) :=
  (steps strategy walk.hop).map fun step => walk.stepSelect block env picks placed step.1 step.2

/-- The predicates that are placed at the end of a walk, as conditions. -/
def placed : Attempt Conditions :=
  (block.lowerPlaced env.opts.dialect picks walk.hop.scope (some walk.hop.nodeAlias)).result

end

/-- A hop under the names of the hop of a walk. -/
structure SameNames (walk : Walk) (hop : Traversal) : Prop where
  edgeAlias : hop.edgeAlias = walk.hop.edgeAlias
  nodeAlias : hop.nodeAlias = walk.hop.nodeAlias

/-- Each walk so far ends at a node with texts in its key. -/
def HasTextEnds (walk : Walk) (env : Setting) (world : Context ν Statement) : Prop :=
  ∀ current ∈ world.relations (rowSetName env), world.db.IsTextKey (world.db.carriedKey walk.hop.nodeAlias current)

variable {walk : Walk} {block : Block Nested} {env : Setting} {picks : Decisions}

theorem result_stepMember (named : walk.SameNames hop) (guards : Conditions) :
    (walk.stepMember block env picks hop guards).result = (walk.placed block env picks).map fun placed =>
        walk.stepSelect block env picks placed hop guards := by
  have scope : hop.scope = walk.hop.scope := by simp [scope, named.edgeAlias, named.nodeAlias]
  unfold stepMember Block.hopConditions placed
  simp only [result_bind, result_pure, scope, named.nodeAlias, stepSelect, LawfulMonad.bind_assoc]
  exact bind_pure_comp _ _

variable {conditions : Conditions}

theorem result_stepMembers {steps : List (Traversal × Conditions)} (named : ∀ step ∈ steps, walk.SameNames step.1)
    (lowered : walk.placed block env picks = .ok conditions) :
    (walk.stepMembers block env picks steps).result = .ok (steps.map fun step =>
        walk.stepSelect block env picks conditions step.1 step.2) := by
  induction steps with
  | nil => rfl
  | cons step rest ih =>
    have others := ih fun other mem => named other (List.mem_cons_of_mem _ mem)
    simp only [stepMembers, result_bind, result_pure, List.map_cons,
      result_stepMember (named step List.mem_cons_self), lowered, others]
    rfl

theorem placed_of_stepMembers {step : Traversal × Conditions}
    {rest : List (Traversal × Conditions)} (named : walk.SameNames step.1)
    {members : List (Select Statement)}
    (returned : (walk.stepMembers block env picks (step :: rest)).result = .ok members) :
    ∃ conditions, walk.placed block env picks = .ok conditions := by
  simp only [stepMembers, result_bind, result_stepMember named] at returned
  cases lowered : walk.placed block env picks with
  | error error =>
    rw [lowered] at returned
    exact absurd returned (by intro same; cases same)
  | ok conditions => exact ⟨conditions, rfl⟩

theorem sameNames_of_mem (strategy : WalkStrategy) : ∀ step ∈ steps strategy walk.hop, walk.SameNames step.1 :=
  forall_mem_steps strategy ⟨rfl, rfl⟩ (fun _ => ⟨rfl, rfl⟩) fun _ => ⟨rfl, rfl⟩

section Meaning

variable [DecidableEq ν] {world : Context ν Statement} {current edge node : Record ν}

/-- The rows in reach of a step. -/
def stepFrame (current edge node : Record ν) : Frame ν := [(.walk, current), (.edge, edge), (.node, node)]

/-- The conditions of a step beside those of its joins and kinds hold. -/
def Permits (walk : Walk) (block : Block Nested) (picks : Decisions)
    (conditions : Conditions) (world : Context ν Statement)
    (current edge node : Record ν) : Prop :=
  world.Holds (stepFrame current edge node) (block.hopVisibility picks ++ conditions ++ walk.stepConditions)

instance (conditions : Conditions) : Decidable (walk.Permits block picks conditions world current edge node) :=
  inferInstanceAs (Decidable (world.Holds _ _))

/-- The walks that a member adds: from each walk so far, the edges that connect it with a node. -/
theorem frames_stepSelect (hop : Traversal) (named : walk.SameNames hop) (typed : world.Typed)
    (arrived : walk.HasTextEnds env world)
    (conditions guards : Conditions) :
    (walk.stepSelect block env picks conditions hop guards).frames world =
      (world.relations (rowSetName env)).bind fun current =>
        (world.pairs.filter fun pair =>
          hop.Connects world.db env.graphId (world.db.carriedKey walk.hop.nodeAlias current) pair.1 pair.2 ∧
            walk.Permits block picks conditions world current pair.1 pair.2 ∧
            world.Holds (stepFrame current pair.1 pair.2) guards).map fun pair =>
              stepFrame current pair.1 pair.2 := by
  have joins : (walk.stepSelect block env picks conditions hop guards).joins =
      hop.joins env.graphId (.carried .walk walk.hop.nodeAlias) env.opts.dialect.capabilities.fixesJoinOrder := by
    simp only [stepSelect, named.nodeAlias]
  have inWhere : (walk.stepSelect block env picks conditions hop guards).conditions =
      hop.kindConditions ++ (block.hopVisibility picks ++ conditions ++ walk.stepConditions ++ guards) := by
    simp only [stepSelect, append_assoc]
  rw [Select.frames_leads typed (by exact arrived) (by rfl) (by decide) (by decide) joins inWhere]
  simp only [Permits, holds_append, stepFrame]
  rfl

omit [DecidableEq ν] in
theorem hasKind_both (db : Engine ν) (hop : Traversal) :
    db.HasKind (hop.inverseEdgeKinds.filter hop.edgeKinds.contains) edge ↔
      db.HasKind hop.edgeKinds edge ∧ db.HasKind hop.inverseEdgeKinds edge := by
  constructor
  · rintro ⟨kind, mem, same⟩
    obtain ⟨inverse, direct⟩ := mem_filter.mp mem
    exact ⟨⟨kind, contains_iff_mem.mp direct, same⟩, ⟨kind, inverse, same⟩⟩
  · rintro ⟨⟨kind, direct, same⟩, ⟨other, inverse, otherSame⟩⟩
    obtain rfl := db.text_injective (same.symm.trans otherSame)
    exact ⟨kind, mem_filter.mpr ⟨inverse, contains_iff_mem.mpr direct⟩, same⟩

/-- The guard leaves out the edges from a node to itself that may be followed either way. -/
theorem holds_loopGuards (hop : Traversal) {frame : Frame ν} (edgeAt : frame.lookup .edge = some edge)
    (typed : world.db.HasTexts Table.edges.textNames edge) :
    world.Holds frame (loopGuards hop) ↔ ¬ (hop.direction.nearOf world.db edge = hop.direction.farOf world.db edge ∧
        world.db.HasKind hop.edgeKinds edge ∧
        world.db.HasKind hop.inverseEdgeKinds edge) := by
  have turned : hop.direction.nearOf world.db edge = hop.direction.farOf world.db edge ↔
      outward.nearOf world.db edge = outward.farOf world.db edge := by
    cases hop.direction with
    | outward => exact Iff.rfl
    | inward => exact eq_comm
  rw [← hasKind_both, turned]
  unfold loopGuards
  by_cases none : hop.inverseEdgeKinds.filter hop.edgeKinds.contains = []
  · simp [none, not_hasKind_nil]
  · have near := eval_near world.db edgeAt .outward
    have far := eval_far world.db edgeAt .outward
    have nearIsText := isTextKey_nearOf typed .outward
    have farIsText := isTextKey_farOf typed .outward
    rw [← near] at nearIsText
    rw [← far] at farIsText
    have kindIsText : world.db.IsText ((Term.ofColumn .edge .kind).eval world.db 0 frame) := by
      rw [Term.eval_ofColumn_edge _ edgeAt]
      exact typed _ (by decide)
    have decided : ∀ condition ∈ outward.near.same outward.far ++
        [edgeKindIs (hop.inverseEdgeKinds.filter hop.edgeKinds.contains)],
        (condition : Condition Statement).truth world 0 frame ≠ .unknown := by
      simp only [NodeKey.same, cons_append, nil_append, List.forall_mem_cons]
      exact ⟨Condition.truth_equal_ne_unknown nearIsText.1 farIsText.1,
        Condition.truth_equal_ne_unknown nearIsText.2 farIsText.2,
        Condition.truth_kindIs_ne_unknown kindIsText, by simp⟩
    simp [none, truth_notAll decided, NodeKey.holds_same farIsText, truth_edgeKindIs edgeAt, near, far]

omit [DecidableEq ν] in
theorem leads_direct (db : Engine ν) (hop : Traversal) (start : ν × ν) : (direct hop).Leads db start edge node ↔
      db.HasKind hop.edgeKinds edge ∧ hop.direction.nearOf db edge = start ∧
        hop.direction.farOf db edge = db.keyOf node := by
  simp [Traversal.Leads, direct, not_hasKind_nil]

omit [DecidableEq ν] in
theorem leads_inverse (db : Engine ν) (hop : Traversal) (start : ν × ν) : (inverse hop).Leads db start edge node ↔
      db.HasKind hop.inverseEdgeKinds edge ∧ hop.direction.farOf db edge = start ∧
        hop.direction.nearOf db edge = db.keyOf node := by
  have twice : hop.direction.reversed.reversed = hop.direction := by cases hop.direction <;> rfl
  simp [Traversal.Leads, inverse, not_hasKind_nil, twice, farOf]

/-- The edge leads from a node to itself and may be followed either way. -/
def IsLoop (db : Engine ν) (hop : Traversal) (edge : Record ν) : Prop :=
  hop.direction.nearOf db edge = hop.direction.farOf db edge ∧
    db.HasKind hop.edgeKinds edge ∧ db.HasKind hop.inverseEdgeKinds edge

omit [DecidableEq ν] in
/-- An edge that leads somewhere does so along the hop, or else against it. -/
theorem leads_iff (db : Engine ν) (hop : Traversal) (start : ν × ν) : hop.Leads db start edge node ↔
      (direct hop).Leads db start edge node ∨ (inverse hop).Leads db start edge node ∧ ¬ IsLoop db hop edge := by
  rw [leads_direct, leads_inverse, Traversal.Leads, IsLoop]
  constructor
  · rintro (along | ⟨kind, arrives, leaves⟩)
    · exact .inl along
    · by_cases loop : hop.direction.nearOf db edge = hop.direction.farOf db edge ∧
          db.HasKind hop.edgeKinds edge ∧ db.HasKind hop.inverseEdgeKinds edge
      · -- A loop ends where it starts, so that it is followed along the hop.
        refine .inl ⟨loop.2.1, loop.1.trans arrives, loop.1.symm.trans leaves⟩
      · exact .inr ⟨⟨kind, arrives, leaves⟩, loop⟩
  · rintro (along | ⟨against, -⟩)
    · exact .inl along
    · exact .inr against

omit [DecidableEq ν] in
/-- No edge but a loop leads both ways from one node. -/
theorem isLoop_of_leads (db : Engine ν) (hop : Traversal) {start : ν × ν}
    (along : (direct hop).Leads db start edge node)
    (against : (inverse hop).Leads db start edge node) : IsLoop db hop edge := by
  rw [leads_direct] at along
  rw [leads_inverse] at against
  exact ⟨along.2.1.trans against.2.1.symm, along.1, against.1⟩

/-- Following an edge in each direction by a member of its own adds the same rows as following it
either way by one member. -/
theorem frames_direct_add_inverse (typed : world.Typed) (arrived : walk.HasTextEnds env world)
    (conditions : Conditions) :
    (walk.stepSelect block env picks conditions (direct walk.hop) []).frames world +
        (walk.stepSelect block env picks conditions (inverse walk.hop) (loopGuards walk.hop)).frames world =
      (walk.stepSelect block env picks conditions walk.hop []).frames world := by
  rw [frames_stepSelect (direct walk.hop) ⟨rfl, rfl⟩ typed arrived,
    frames_stepSelect (inverse walk.hop) ⟨rfl, rfl⟩ typed arrived,
    frames_stepSelect walk.hop ⟨rfl, rfl⟩ typed arrived, ← bind_add]
  refine Multiset.bind_congr fun current mem => ?_
  have guarded (pair : Record ν × Record ν) (member : pair ∈ world.pairs) :
      world.Holds (stepFrame current pair.1 pair.2) (loopGuards walk.hop) ↔ ¬ IsLoop world.db walk.hop pair.1 :=
    holds_loopGuards walk.hop rfl (typed .edges pair.1 (mem_pairs member).1)
  rw [← Multiset.map_add, filter_add_filter, add_eq_left.mpr]
  · refine congrArg _ (filter_congr fun pair member => ?_)
    have kinds : (direct walk.hop).nodeKinds = walk.hop.nodeKinds ∧
        (inverse walk.hop).nodeKinds = walk.hop.nodeKinds := ⟨rfl, rfl⟩
    simp only [Traversal.Connects, leads_iff world.db walk.hop, guarded pair member, kinds, holds_nil, and_true]
    constructor
    · rintro (⟨⟨edge, node, along, kind⟩, permits⟩ | ⟨⟨edge, node, against, kind⟩, permits, free⟩)
      · exact ⟨⟨edge, node, .inl along, kind⟩, permits⟩
      · exact ⟨⟨edge, node, .inr ⟨against, free⟩, kind⟩, permits⟩
    · rintro ⟨⟨edge, node, along | ⟨against, free⟩, kind⟩, permits⟩
      · exact .inl ⟨⟨edge, node, along, kind⟩, permits⟩
      · exact .inr ⟨⟨edge, node, against, kind⟩, permits, free⟩
  · refine filter_eq_nil.mpr fun pair member => ?_
    rintro ⟨⟨along, -⟩, against, -, free⟩
    exact (guarded pair member).mp free (isLoop_of_leads _ _ along.2.2.1 against.2.2.1)

/-- A hop without kinds of edges adds no walks. -/
theorem frames_stepSelect_eq_zero (hop : Traversal) (named : walk.SameNames hop) (typed : world.Typed)
    (arrived : walk.HasTextEnds env world)
    (noKinds : hop.edgeKinds = []) (noInverseKinds : hop.inverseEdgeKinds = [])
    (conditions guards : Conditions) :
    (walk.stepSelect block env picks conditions hop guards).frames world = 0 := by
  have nowhere (pair : Record ν × Record ν) (start : ν × ν) : ¬ hop.Leads world.db start pair.1 pair.2 := by
    simp [Traversal.Leads, noKinds, noInverseKinds, not_hasKind_nil]
  rw [frames_stepSelect hop named typed arrived]
  simp [Traversal.Connects, nowhere]

/-- Both strategies add the same walks. -/
theorem sum_frames_steps (typed : world.Typed) (arrived : walk.HasTextEnds env world)
    (conditions : Conditions) (strategy : WalkStrategy) :
    ((walk.stepSelects block env picks conditions strategy).map (Select.frames world)).sum =
      (walk.stepSelect block env picks conditions walk.hop []).frames world := by
  rw [stepSelects, List.map_map]
  cases strategy with
  | oneMember => simp [steps]
  | manyMembers =>
    rw [← frames_direct_add_inverse typed arrived]
    unfold steps
    rw [map_append, sum_append]
    congr 1
    · by_cases none : walk.hop.edgeKinds = []
      · rw [frames_stepSelect_eq_zero (direct walk.hop) ⟨rfl, rfl⟩ typed arrived none rfl]
        simp [none]
      · simp [none]
    · by_cases none : walk.hop.inverseEdgeKinds = []
      · rw [frames_stepSelect_eq_zero (inverse walk.hop) ⟨rfl, rfl⟩ typed arrived none rfl]
        simp [none]
      · simp [none]

omit [DecidableEq ν] in
/-- The start and the edge decide which node is reached. -/
theorem keyOf_eq_of_leads {db : Engine ν} {start : ν × ν} {other : Record ν}
    (leads : hop.Leads db start edge node) (leadsToOther : hop.Leads db start edge other) :
    db.keyOf node = db.keyOf other := by
  rcases leads with ⟨-, leaves, reaches⟩ | ⟨-, leaves, reaches⟩ <;>
    rcases leadsToOther with ⟨-, otherLeaves, otherReaches⟩ | ⟨-, otherLeaves, otherReaches⟩
  · rw [← reaches, ← otherReaches]
  · rw [← reaches, ← otherReaches, leaves, otherLeaves]
  · rw [← reaches, ← otherReaches, leaves, otherLeaves]
  · rw [← reaches, ← otherReaches]

/-- From one node, an edge is followed to one node at most. -/
theorem card_frames_step_le_one (typed : world.Typed) (unique : world.UniqueNodes)
    (only : world.relations (rowSetName env) = {current})
    (single : world.tables .edges = {edge})
    (arrived : walk.HasTextEnds env world)
    (conditions : Conditions) :
    ((walk.stepSelect block env picks conditions walk.hop []).frames world).card ≤ 1 := by
  rw [frames_stepSelect walk.hop ⟨rfl, rfl⟩ typed arrived, only, singleton_bind,
    card_map, Context.pairs, single, singleton_bind, Multiset.filter_map,
    card_map]
  refine unique.card_filter_le_one ?_
  rintro node other ⟨⟨-, inGraph, leads, -⟩, -⟩ ⟨⟨-, otherInGraph, leadsToOther, -⟩, -⟩
  exact ⟨inGraph.trans otherInGraph.symm, keyOf_eq_of_leads leads leadsToOther⟩

theorem isPlain_stepSelect (walk : Walk) (block : Block Nested) (env : Setting)
    (picks : Decisions) (conditions : Conditions) (hop : Traversal)
    (guards : Conditions) :
    (walk.stepSelect block env picks conditions hop guards).IsPlain where
  groupBy := rfl
  having := rfl
  bounds := rfl
  columns := by
    intro column mem
    simp only [stepSelect, mem_append, List.mem_map, trailColumns, Block.tableColumns, List.mem_cons] at mem
    rcases mem with (⟨carried, -, rfl⟩ | ⟨carried, -, rfl⟩) | (rfl | ofPath)
    · rfl
    · rfl
    · rfl
    · split at ofPath
      · obtain rfl := List.mem_singleton.mp ofPath
        rfl
      · simp at ofPath

/-- Members that extend walks alike: they have the same rows in reach, each as often, they return the
same rows, and from one walk they follow an edge once at most. -/
structure ExtendAlike (world : Context ν Statement) (env : Setting)
    (first second : List (Select Statement)) : Prop where
  frames : (first.map (Select.frames world)).sum = (second.map (Select.frames world)).sum
  returns : ∀ rows, Select.ReturnTogether world first rows ↔ Select.ReturnTogether world second rows
  once : world.UniqueNodes → ∀ current edge,
    world.relations (rowSetName env) = {current} → world.tables .edges = {edge} →
      (first.map (Select.frames world)).sum.card ≤ 1

theorem columns_stepSelect (named : walk.SameNames hop) (conditions guards : Conditions) :
    (walk.stepSelect block env picks conditions hop guards).columns =
      (walk.stepSelect block env picks conditions walk.hop []).columns := by
  simp [stepSelect, named.nodeAlias]

variable (typed : world.Typed) (arrived : walk.HasTextEnds env world)
variable (conditions : Conditions)

include typed arrived

/-- What the members of a strategy return is what one member makes of the walks so far. -/
theorem returnTogether_stepSelects (strategy : WalkStrategy) {rows : Bag ν} :
    Select.ReturnTogether world (walk.stepSelects block env picks conditions strategy) rows ↔
      (walk.stepSelect block env picks conditions walk.hop []).Returns world rows := by
  have plain : ∀ member ∈ walk.stepSelects block env picks conditions strategy, member.IsPlain := by
    intro member mem
    obtain ⟨step, -, rfl⟩ := List.mem_map.mp mem
    exact isPlain_stepSelect ..
  have columns : ∀ member ∈ walk.stepSelects block env picks conditions strategy, member.columns =
        (walk.stepSelect block env picks conditions walk.hop []).columns := by
    intro member mem
    obtain ⟨step, inSteps, rfl⟩ := List.mem_map.mp mem
    exact columns_stepSelect (sameNames_of_mem strategy step inSteps) ..
  rw [Select.returnTogether_iff plain, Select.sum_outputs world columns,
    sum_frames_steps typed arrived, (isPlain_stepSelect ..).returns_iff world]
  rfl

theorem extendAlike_stepSelects (first second : WalkStrategy) :
    ExtendAlike world env (walk.stepSelects block env picks conditions first)
      (walk.stepSelects block env picks conditions second) where
  frames := by rw [sum_frames_steps typed arrived, sum_frames_steps typed arrived]
  returns _ := by rw [returnTogether_stepSelects typed arrived, returnTogether_stepSelects typed arrived]
  once unique current edge only single := by
    rw [sum_frames_steps typed arrived]
    exact card_frames_step_le_one typed unique only single arrived conditions

end Meaning

theorem result_strategy (strategy : WalkStrategy) (lowered : walk.placed block env picks = .ok conditions) :
    (walk.stepMembers block env picks (steps strategy walk.hop)).result =
      .ok (walk.stepSelects block env picks conditions strategy) :=
  result_stepMembers (sameNames_of_mem strategy) lowered

theorem steps_ne_nil (kinds : hop.edgeKinds ≠ [] ∨ hop.inverseEdgeKinds ≠ [])
    (strategy : WalkStrategy) : steps strategy hop ≠ [] := by
  cases strategy with
  | oneMember => simp [steps]
  | manyMembers =>
    rcases kinds with direct | inverse
    · simp [steps, direct]
    · simp [steps, inverse]

/-- A hop with kinds of edges needs its predicates, whatever the strategy. -/
theorem result_stepMembers_of_kinds  (kinds : walk.hop.edgeKinds ≠ [] ∨ walk.hop.inverseEdgeKinds ≠ [])
    (strategy : WalkStrategy) :
    (walk.stepMembers block env picks (steps strategy walk.hop)).result =
      (walk.placed block env picks).map fun placed => walk.stepSelects block env picks placed strategy := by
  cases lowered : walk.placed block env picks with
  | ok placed => exact result_strategy strategy lowered
  | error error =>
    obtain ⟨step, rest, found⟩ := exists_cons_of_ne_nil (steps_ne_nil kinds strategy)
    have named : walk.SameNames step.1 := sameNames_of_mem strategy step (by rw [found]; exact List.mem_cons_self)
    rw [found, stepMembers]
    simp only [result_bind, result_stepMember named, lowered]
    rfl

/-- The two strategies agree. Where one member is built, so are the members for each direction, and
they extend walks alike in every database whose identifying columns hold texts. Conversely, one member
is built where the members for each direction are, unless the hop has no kinds at all. -/
theorem strategies_agree (walk : Walk) (block : Block Nested) (env : Setting)
    (picks : Decisions) :
    (∀ one, (walk.stepMembers block env picks (steps .oneMember walk.hop)).result = .ok one →
      ∃ many,
        (walk.stepMembers block env picks (steps .manyMembers walk.hop)).result = .ok many ∧
          ∀ (ν : Type) [DecidableEq ν] (world : Context ν Statement), world.Typed →
            (∀ current ∈ world.relations (rowSetName env),
              world.db.IsTextKey (world.db.carriedKey walk.hop.nodeAlias current)) →
            ExtendAlike world env many one) ∧
      (walk.hop.edgeKinds ≠ [] ∨ walk.hop.inverseEdgeKinds ≠ [] →
        ∀ many,
          (walk.stepMembers block env picks (steps .manyMembers walk.hop)).result =
            .ok many →
          ∃ one, (walk.stepMembers block env picks (steps .oneMember walk.hop)).result =
            .ok one) := by
  constructor
  · intro one returned
    obtain ⟨conditions, lowered⟩ := placed_of_stepMembers ⟨rfl, rfl⟩ returned
    rw [result_strategy .oneMember lowered] at returned
    obtain rfl := Except.ok.inj returned
    refine ⟨_, result_strategy .manyMembers lowered, ?_⟩
    intro ν _ world typed arrived
    exact extendAlike_stepSelects typed arrived conditions .manyMembers .oneMember
  · intro kinds many returned
    rw [result_stepMembers_of_kinds kinds] at returned
    cases lowered : walk.placed block env picks with
    | error error =>
        rw [lowered] at returned
        exact absurd returned (by intro same; cases same)
    | ok conditions => exact ⟨_, result_strategy .oneMember lowered⟩

/-- Walks of one or two steps along friendships, which may be followed either way. -/
def friendship : Walk where
  hop := { Traversal.outwardFrom "p" "e" "knows" "f" "person" with inverseEdgeKinds := ["knows", "met"] }
  walk := { minDepth := 1, maxDepth := 2 }
  range := ⟨1, 2⟩

def friendshipBlock : Block Nested :=
  (Block.ofKind "p" "person").traverse { friendship.hop with walk := some friendship.walk }

def friendshipSetting : Setting where
  opts := {}
  graphId := "people"

/-- A walk has arrived at a person with an edge to itself. -/
def selfLoop : Context Datum Statement where
  db := Datum.db
  tables := Datum.tables "people" [("person", "ada")] [⟨"1", "knows", ("person", "ada"), ("person", "ada")⟩]
  relations _ := {[("f_id", .text "ada"), ("f_kind", .text "person"), ("depth", .integer 0), ("path", .text "|eve|")]}
  answers _ := 0

theorem friendship_strategies :
    ∃ one many,
      (friendship.stepMembers friendshipBlock friendshipSetting
          (friendshipBlock.walkDecisions {} none) (steps .oneMember friendship.hop)).result =
        .ok one ∧
      (friendship.stepMembers friendshipBlock friendshipSetting
          (friendshipBlock.walkDecisions {} none) (steps .manyMembers friendship.hop)).result =
        .ok many ∧
      ExtendAlike selfLoop friendshipSetting many one ∧
      (one.map (Select.frames selfLoop)).sum.card = 1 := by
  obtain ⟨many, returned, alike⟩ := (strategies_agree friendship friendshipBlock friendshipSetting
    (friendshipBlock.walkDecisions {} none)).1 _ rfl
  refine ⟨_, many, rfl, returned, alike Datum selfLoop (Datum.graph_typed _ _ _) ?_, by decide⟩
  intro current mem
  obtain rfl := Multiset.mem_singleton.mp mem
  exact ⟨⟨_, rfl⟩, ⟨_, rfl⟩⟩

end GraphSql.Walk
