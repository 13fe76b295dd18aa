import GraphSql.Proofs.Equivalence.WalkRows
import Mathlib.Algebra.BigOperators.Group.Finset.Basic

namespace GraphSql

open Multiset Multiset.Nodup

variable {ν : Type}

/-- A walk through a graph: its first node, and each edge that it follows with the node that it leads
to. -/
structure Trail (ν : Type) where
  start : Record ν
  steps : List (Record ν × Record ν) := []

namespace Trail

def length (trail : Trail ν) : Nat := trail.steps.length

/-- The nodes of a walk in the order in which it comes to them. -/
def nodes (trail : Trail ν) : List (Record ν) := trail.start :: trail.steps.map Prod.snd

/-- The node that a walk has come to. -/
def finish (trail : Trail ν) : Record ν := (trail.steps.map Prod.snd).getLastD trail.start

/-- The walk with one step more. -/
def extend (trail : Trail ν) (step : Record ν × Record ν) : Trail ν := ⟨trail.start, trail.steps ++ [step]⟩

/-- What a row tells of a walk. -/
def position (db : Engine ν) (trail : Trail ν) : Walk.Position ν :=
  trail.steps.foldl (fun position step => position.extend db step.2) (.ofStart db trail.start)

/-- Each step may be taken from the node that the steps before it have come to. -/
def Follows (opens : Record ν → Record ν × Record ν → Prop) : Record ν → List (Record ν × Record ν) → Prop
  | _, [] => True
  | node, step :: rest => opens node step ∧ Follows opens step.2 rest

section

variable (trail : Trail ν) (step : Record ν × Record ν)

@[simp] theorem length_extend : (trail.extend step).length = trail.length + 1 := by simp [extend, length]

@[simp] theorem nodes_extend : (trail.extend step).nodes = trail.nodes ++ [step.2] := by simp [extend, nodes]

@[simp] theorem finish_extend : (trail.extend step).finish = step.2 := by simp [extend, finish]

end

@[simp] theorem position_extend (db : Engine ν) (trail : Trail ν) (step : Record ν × Record ν) :
    (trail.extend step).position db = (trail.position db).extend db step.2 := by
  simp [extend, position]

theorem extend_injective : Function.Injective2 (extend (ν := ν)) := by
  rintro ⟨start, steps⟩ ⟨otherStart, others⟩ step other same
  simp only [extend, Trail.mk.injEq] at same
  obtain ⟨rfl, stepsAlike⟩ := same
  obtain ⟨rfl, last⟩ := List.append_inj' stepsAlike rfl
  exact ⟨rfl, List.singleton_inj.mp last⟩

theorem induction {property : Trail ν → Prop} (start : ∀ node, property ⟨node, []⟩)
    (step : ∀ trail step, property trail → property (extend trail step)) (trail : Trail ν) :
    property trail := by
  obtain ⟨node, steps⟩ := trail
  induction steps using List.reverseRecOn with
  | nil => exact start node
  | append_singleton before last ih => exact step _ last ih

theorem position_spec (db : Engine ν) (trail : Trail ν) : (trail.position db).start = trail.start ∧
      (trail.position db).current = trail.finish ∧
      (trail.position db).depth = trail.length := by
  induction trail using Trail.induction with
  | start node => exact ⟨rfl, rfl, rfl⟩
  | step trail step ih =>
    obtain ⟨start, -, depth⟩ := ih
    simp [Walk.Position.extend, start, depth]
    rfl

/-- A walk with one step more follows the steps of the walk, and then the last one from its end. -/
theorem follows_extend {opens : Record ν → Record ν × Record ν → Prop} (trail : Trail ν) (step : Record ν × Record ν) :
    Follows opens (trail.extend step).start (trail.extend step).steps ↔
      Follows opens trail.start trail.steps ∧ opens trail.finish step := by
  obtain ⟨node, steps⟩ := trail
  simp only [extend]
  induction steps generalizing node with
  | nil => simp [Follows, finish]
  | cons first rest ih =>
    have finish : finish ⟨node, first :: rest⟩ = finish ⟨first.2, rest⟩ := List.getLastD_cons ..
    simp [Follows, ih, finish, and_assoc]

end Trail

/-- No two edges of a graph have one id. -/
def Context.UniqueEdges {σ : Type} (world : Context ν σ) : Prop :=
  ((world.tables .edges).map fun edge => (world.db.field edge "graph_id", world.db.field edge Column.id.name)).Nodup

/-- No edge is paired with a node twice. -/
theorem Context.nodup_pairs {σ : Type} {world : Context ν σ} (nodes : world.UniqueNodes)
    (edges : world.UniqueEdges) : world.pairs.Nodup :=
  Multiset.Nodup.product (of_map _ edges) (of_map _ nodes)

namespace Walk

variable [DecidableEq ν] {world : Context ν Statement} {block : Block Nested} {env : Setting}
variable {picks : Decisions} {walk : Walk} {early placed : Conditions}

/-- A step that leads on from a node: an edge that connects it with a node in a direction of the hop,
where both are visible and meet the predicates that are placed there. -/
def Opens (walk : Walk) (block : Block Nested) (env : Setting) (picks : Decisions)
    (placed : Conditions) (world : Context ν Statement) (node : Record ν)
    (step : Record ν × Record ν) : Prop :=
  step.1 ∈ world.tables .edges ∧ step.2 ∈ world.tables .nodes ∧
    walk.hop.Connects world.db env.graphId (world.db.keyOf node) step.1 step.2 ∧
    world.Holds [(.edge, step.1), (.node, step.2)] (block.hopVisibility picks ++ placed)

instance (node : Record ν) (step : Record ν × Record ν) :
    Decidable (walk.Opens block env picks placed world node step) :=
  inferInstanceAs (Decidable (_ ∧ _ ∧ _ ∧ _))

variable {step : Record ν × Record ν} {trail : Trail ν}

theorem mem_connections {node : Record ν} :
    step ∈ block.connections env picks walk.hop placed world (world.db.keyOf node) ↔
      walk.Opens block env picks placed world node step := by
  have paired : step ∈ world.pairs ↔ step.1 ∈ world.tables .edges ∧ step.2 ∈ world.tables .nodes := mem_product
  rw [Block.connections, mem_filter, paired, Opens, and_assoc]

section

variable (walk : Walk) (block : Block Nested) (env : Setting) (picks : Decisions)
variable (early placed : Conditions) (world : Context ν Statement)

/-- The walks that the members of a row set build: each start node, and each walk that is built with
a step that is open to it. -/
inductive Builds : Trail ν → Prop where
  | start {node : Record ν} (mem : node ∈ block.starts env picks early world) : Builds ⟨node, []⟩
  | step {trail : Trail ν} {step : Record ν × Record ν} (before : Builds trail)
      (opens : step ∈ walk.extensions block env picks placed world
        (trail.position world.db)) :
      Builds (trail.extend step)

/-- The walks of a number of steps. -/
def trailsOf : Nat → Multiset (Trail ν)
  | 0 => (block.starts env picks early world).map fun node => ⟨node, []⟩
  | length + 1 =>
      (trailsOf length).bind fun trail =>
        (walk.extensions block env picks placed world (trail.position world.db)).map trail.extend

/-- The walks of a query that are no longer than it allows. -/
def trails : Multiset (Trail ν) :=
  ∑ length ∈ Finset.range (walk.range.greatest.toNat + 1), walk.trailsOf block env picks early placed world length

end

theorem mem_trailsOf {length : Nat} : trail ∈ walk.trailsOf block env picks early placed world length ↔
      walk.Builds block env picks early placed world trail ∧ trail.length = length := by
  constructor
  · intro member
    induction length generalizing trail with
    | zero =>
      obtain ⟨node, mem, rfl⟩ := mem_map.mp member
      exact ⟨.start mem, rfl⟩
    | succ length ih =>
      obtain ⟨before, shorter, extended⟩ := mem_bind.mp member
      obtain ⟨step, opens, rfl⟩ := mem_map.mp extended
      obtain ⟨builds, steps⟩ := ih shorter
      exact ⟨.step builds opens, by rw [Trail.length_extend, steps]⟩
  · rintro ⟨builds, rfl⟩
    induction builds with
    | start mem => exact mem_map_of_mem _ mem
    | step before opens ih =>
      rw [Trail.length_extend]
      exact mem_bind.mpr ⟨_, ih, mem_map_of_mem _ opens⟩

/-- A step extends a walk if it leads on from its end, the walk may get longer, and the next node is
not on a path that is tracked. -/
theorem mem_extensions : step ∈ walk.extensions block env picks placed world (trail.position world.db) ↔
      walk.Opens block env picks placed world trail.finish step ∧ trail.length < walk.range.greatest.toNat ∧
        (walk.walk.tracksPath = true → world.db.offPath (trail.position world.db).path
            (world.db.keyOf step.2).1 = .yes) := by
  obtain ⟨-, current, depth⟩ := trail.position_spec world.db
  rw [extensions, mem_filter, current, mem_connections, Admits, depth]

theorem builds_extend : walk.Builds block env picks early placed world (trail.extend step) ↔
      walk.Builds block env picks early placed world trail ∧
        step ∈ walk.extensions block env picks placed world (trail.position world.db) := by
  constructor
  · intro builds
    generalize extended : trail.extend step = longer at builds
    cases builds with
    | start mem => exact absurd (congrArg Trail.steps extended) (by simp [Trail.extend])
    | step before opens =>
      obtain ⟨rfl, rfl⟩ := Trail.extend_injective extended
      exact ⟨before, opens⟩
  · rintro ⟨before, opens⟩
    exact .step before opens

theorem Builds.length_le (builds : walk.Builds block env picks early placed world trail) :
    trail.length ≤ walk.range.greatest.toNat := by
  cases builds with
  | start mem => exact Nat.zero_le _
  | step _ opens =>
    rw [Trail.length_extend]
    exact (mem_extensions.mp opens).2.1

theorem mem_trails : trail ∈ walk.trails block env picks early placed world ↔
      walk.Builds block env picks early placed world trail := by
  simp only [trails, mem_sum, Finset.mem_range, mem_trailsOf]
  constructor
  · rintro ⟨length, -, builds, -⟩
    exact builds
  · exact fun builds => ⟨trail.length, Nat.lt_succ_of_le builds.length_le, builds, rfl⟩

/-- No walk of a number of steps is built twice, because no edge and no node occur twice. -/
theorem nodup_trailsOf (nodes : world.UniqueNodes) (edges : world.UniqueEdges) (length : Nat) :
    (walk.trailsOf block env picks early placed world length).Nodup := by
  induction length with
  | zero =>
    refine Multiset.Nodup.map (fun first second same => ?_) (of_map _ (Block.nodup_starts nodes))
    exact congrArg Trail.start same
  | succ length ih =>
    refine nodup_bind.mpr ⟨fun trail _ => ?_, ih.pairwise ?_⟩
    · refine Multiset.Nodup.map (Trail.extend_injective.right trail) ?_
      exact ((Context.nodup_pairs nodes edges).filter _).filter _
    · intro first _ second _ different
      refine disjoint_left.mpr fun {trail} ofFirst ofSecond => ?_
      obtain ⟨step, -, rfl⟩ := mem_map.mp ofFirst
      obtain ⟨other, -, same⟩ := mem_map.mp ofSecond
      exact different (Trail.extend_injective same).1.symm

theorem nodup_trails (nodes : world.UniqueNodes) (edges : world.UniqueEdges) :
    (walk.trails block env picks early placed world).Nodup := by
  unfold trails
  generalize walk.range.greatest.toNat + 1 = rounds
  induction rounds with
  | zero => simp
  | succ rounds ih =>
    rw [Finset.sum_range_succ]
    refine nodup_add.mpr ⟨ih, nodup_trailsOf nodes edges rounds, ?_⟩
    refine disjoint_left.mpr fun {trail} before ofRound => ?_
    obtain ⟨length, inRange, shorter⟩ := mem_sum.mp before
    have steps := (mem_trailsOf.mp shorter).2
    have more := (mem_trailsOf.mp ofRound).2
    rw [Finset.mem_range] at inRange
    omega

theorem iterate_advance (rounds : Nat) : (walk.advance block env picks placed world)^[rounds]
        ((block.starts env picks early world).map (Position.ofStart world.db)) =
      (walk.trailsOf block env picks early placed world rounds).map (Trail.position world.db) := by
  induction rounds with
  | zero =>
    rw [trailsOf, map_map]
    rfl
  | succ rounds ih =>
    rw [Function.iterate_succ_apply', ih, advance, trailsOf, bind_map, Multiset.map_bind]
    simp

theorem walksWithin_eq_sum (rounds : Nat) (positions : Multiset (Position ν)) :
    walk.walksWithin block env picks placed world rounds positions = ∑ round ∈ Finset.range rounds,
        (walk.advance block env picks placed world)^[round] positions := by
  induction rounds generalizing positions with
  | zero => rfl
  | succ rounds ih =>
    rw [walksWithin, ih, Finset.sum_range_succ', add_comm]
    rfl

theorem walks_eq_trails : walk.walks block env picks early placed world =
      (walk.trails block env picks early placed world).map (Trail.position world.db) := by
  rw [walks, walksWithin_eq_sum, trails]
  simp only [iterate_advance]
  exact (map_sum (mapAddMonoidHom (Trail.position world.db)) _ _).symm

end Walk

end GraphSql
