import GraphSql.Proofs.Compile
import GraphSql.Proofs.Semantics.Correspondence
import GraphSql.Proofs.Semantics.Datum

namespace GraphSql

open List Traced

section Unbounded

variable {σ ν : Type} [DecidableEq ν] {world after : Context ν σ} {select : Select σ} {rowSet : RowSet σ}
  {rowSets : List (RowSet σ)} {limit : UInt64} {result : Bag ν}

def Select.unbounded (select : Select σ) : Select σ := { select with bounds := none }

def RowSet.unbounded (rowSet : RowSet σ) : RowSet σ := { rowSet with members := rowSet.members.map Select.unbounded }

/-- The level without the bounds of its row sets and of its result. -/
def Level.unbounded (level : Level σ) : Level σ :=
  { level with rowSets := level.rowSets.map RowSet.unbounded, select := level.select.unbounded }

/-- Row sets get their rows one after another, and without its bound none of them has more than this bound
lets through. -/
def Level.StaysWithin : Context ν σ → List (RowSet σ) → Context ν σ → Prop
  | world, [], after => after = world
  | world, rowSet :: rest, after =>
      (∀ whole, rowSet.unbounded.Returns world false whole →
          rowSet.members.all (·.bounds.all (·.limit.all (whole.card ≤ ·.toNat)))) ∧
        ∃ rows, rowSet.Returns world false rows ∧ StaysWithin (world.declare rowSet.name rows) rest after

/-- The row set has one member, with a limit at most. -/
def RowSet.IsCut (rowSet : RowSet σ) : Prop :=
  ∃ member, rowSet.members = [member] ∧ ∃ limit : Option UInt64, member.bounds = limit.map (⟨some ·, none⟩)

/-- A bounded SELECT returns a part of what it returns without its bound, and as much as it may. -/
theorem Select.Returns.exists_unbounded (returns : select.Returns world result)
    (bounds : select.bounds = some ⟨some limit, none⟩) :
    ∃ total, select.unbounded.Returns world total ∧ result ≤ total ∧ result.card = min limit.toNat total.card := by
  obtain ⟨answers, answered, kept⟩ := returns
  rw [bounds] at kept
  obtain ⟨ordered, rfl, -, rfl⟩ := kept
  refine ⟨_, ⟨ordered, answered, rfl⟩, ?_, by simp⟩
  rw [Multiset.map_coe]
  exact Multiset.coe_le.mpr ((take_sublist _ _).map Prod.snd).subperm

/-- Bounds that cut nothing off change nothing. -/
theorem Level.StaysWithin.unbounded (within : StaysWithin world rowSets after)
    (cut : ∀ rowSet ∈ rowSets, rowSet.IsCut) : Prepares false world (rowSets.map RowSet.unbounded) after := by
  induction rowSets generalizing world with
  | nil => exact within
  | cons rowSet rest ih =>
    obtain ⟨⟨member, single, limit, bounds⟩, others⟩ := forall_mem_cons.mp cut
    obtain ⟨few, rows, returns, later⟩ := within
    have alone : rowSet.unbounded.members = [member.unbounded] := by simp [RowSet.unbounded, single]
    rw [RowSet.returns_iff_of_single single] at returns
    refine ⟨rows, (RowSet.returns_iff_of_single alone).mpr ?_, ih later others⟩
    cases limit with
    | none =>
      change member.bounds = none at bounds
      rwa [Select.unbounded, ← bounds]
    | some limit =>
      obtain ⟨total, whole, part, card⟩ := returns.exists_unbounded bounds
      have fits := few total ((RowSet.returns_iff_of_single alone).mpr whole)
      simp only [single, bounds, Option.map_some, all_cons, all_nil, Option.all_some, decide_eq_true_eq,
        Bool.and_true] at fits
      rwa [Multiset.eq_of_le_of_card_le part (by omega)]

/-- An engine may keep the first ones of the rows in any order, unless they are sorted. -/
theorem Select.returns_first {mem : List (Frame ν)} (ungrouped : select.isGrouped = false)
    (unordered : select.orderBy = []) (bounds : select.bounds = some ⟨some limit, none⟩)
    (frames : select.frames world = mem) :
    select.Returns world (((mem.take limit.toNat).map (select.output world 0) : List (Record ν)) : Bag ν) := by
  refine ⟨_, by rw [Answers, ungrouped]; exact rfl, ?_⟩
  simp only [bounds, frames, unordered]
  refine ⟨_, rfl, pairwise_of_forall fun _ _ => by simp [Engine.sortsBefore], ?_⟩
  simp [Function.comp_def]

end Unbounded

/-- The row sets of a chain are single SELECTs with a limit or without bounds. -/
theorem Block.chainLevel_isCut {block : Block Nested} {env : Setting} {picks : Decisions} :
    Returns (block.chainLevel env picks).result fun level => level.isRecursive = false ∧
      (∀ rowSet ∈ level.rowSets, rowSet.IsCut) ∧ level.select.bounds = (block.chainOutput env picks).bounds block := by
  have hops : Returns (block.hopRowSets env picks block.traversals).result fun rowSets =>
      ∀ rowSet ∈ rowSets, rowSet.IsCut := by
    refine hopRowSets_returns (fun counts _ hop _ _ => ?_) fun hop _ later => ?_
    · simp only [countRowSet, result_bind, result_pure, returns_bind, returns_ok]
      exact returns_all fun _ => ⟨_, rfl, none, rfl⟩
    · simp only [hopRowSet, result_bind, result_pure, returns_bind, returns_ok]
      exact returns_all fun _ => ⟨_, rfl, if isJoinedLater hop later then picks.pushdown else none, by split <;> rfl⟩
  simp only [chainLevel, startRowSet, result_bind, result_pure, result_chainSelect, returns_bind, returns_ok,
    returns_pure, forall_mem_cons]
  refine returns_all fun _ => hops.imp fun _ ofHops => ?_
  exact returns_all fun _ => returns_all fun _ => returns_all fun _ => returns_all fun _ =>
    returns_all fun _ => ⟨trivial, ⟨⟨_, rfl, none, rfl⟩, ofHops⟩, trivial⟩

/-- Where the limit of a query is pushed into its row sets and cuts nothing off there, the statement
returns as many rows as the limit lets through of those that it returns without any bound. -/
theorem pushedLimit_keeps_count {block : Block Nested} {env : Setting} {picks : Decisions} {plan : Plan}
    {level : Level Statement} {pushed : UInt64}
    (analyzed : (block.analyzeChain env.opts).result = .ok (picks, plan))
    (pushes : picks.pushdown = some pushed)
    (compiled : (block.chainLevel env picks).result = .ok level) {ν : Type} [DecidableEq ν]
    {world after : Context ν Statement} (within : Level.StaysWithin world level.rowSets after) {result : Bag ν}
    (returns : level.select.Returns after result) :
    ∃ limit total, block.limit = some limit ∧ pushed = UInt64.ofNat (min (limit.toNat * 8) 10000) ∧
      level.unbounded.Returns world total ∧ result ≤ total ∧ result.card = min limit.toNat total.card := by
  obtain ⟨vector, -, rfl⟩ := Block.references_of_analyzeChain analyzed
  obtain ⟨chain, cut, bounds⟩ := Block.chainLevel_isCut.of_ok compiled
  simp only [Block.chainDecisions, Block.pushdown] at pushes
  split at pushes
  · contradiction
  · next limit limited =>
    split at pushes
    · next plain =>
      simp only [Bool.and_eq_true, Option.isNone_iff_eq_none] at plain
      have bounded : level.select.bounds = some ⟨some limit, none⟩ := by
        simp [bounds, Output.bounds, Block.chainOutput, Block.chainDecisions, plain, limited]
      obtain ⟨total, whole, kept⟩ := returns.exists_unbounded bounded
      refine ⟨limit, total, limited, (Option.some.inj pushes).symm, ⟨after, ?_, whole⟩, kept⟩
      exact chain.symm ▸ within.unbounded cut
    · contradiction

/-- Somebody whom a person knows that ann knows. -/
def acquaintance : Query :=
  .mk
    { start := { aliasName := "p", kinds := ["person"] }
      traversals := [.outwardFrom "p" "e" "knows" "f" "person", .outwardFrom "f" "g" "knows" "q" "person"]
      filters := [⟨"p", .node, .comparison (.ofColumn "p" "id") .equal (.literal (.string "ann") none)⟩]
      limit := some 1 }

namespace acquaintance

def env : Setting where
  opts := {}
  graphId := "people"

def picks : Decisions := (acquaintance.nested {}).chainDecisions {} none

/-- Ann knows some persons who know nobody, and then cyd, who knows eve. -/
def crowd (others : List String) : Context Datum Statement :=
  Datum.graph "people" (("person", "ann") :: ("person", "cyd") :: ("person", "eve") :: others.map ("person", ·))
    ((others ++ ["cyd"]).map (fun id => ⟨id, "knows", ("person", "ann"), ("person", id)⟩) ++
      [⟨"e", "knows", ("person", "cyd"), ("person", "eve")⟩])

theorem crowd_keeps_row : ∃ level after result total,
    ((acquaintance.nested {}).chainLevel env picks).result = .ok level ∧
      Level.StaysWithin (crowd ["1"]) level.rowSets after ∧ level.select.Returns after result ∧
        level.unbounded.Returns (crowd ["1"]) total ∧ result.card = min 1 total.card := by
  have analyzed : ((acquaintance.nested {}).analyzeChain env.opts).result = .ok (picks, _) := rfl
  obtain ⟨level, after, result, compiled, within, returns⟩ : ∃ level after result,
      ((acquaintance.nested {}).chainLevel env picks).result = .ok level ∧
        Level.StaysWithin (crowd ["1"]) level.rowSets after ∧ level.select.Returns after result := by
    refine ⟨_, _, _, rfl, ⟨fun _ _ => rfl, _, RowSet.returns_frames rfl rfl rfl, fun whole returns => ?_, _,
      (RowSet.returns_iff_of_single rfl).mpr (Select.returns_first rfl rfl rfl rfl), fun _ _ => rfl, _,
      RowSet.returns_frames rfl rfl rfl, rfl⟩, Select.returns_first rfl rfl rfl rfl⟩
    rw [RowSet.returns_iff_of_single rfl, Select.returns_iff_frames rfl rfl] at returns
    subst returns
    decide
  obtain ⟨limit, total, limited, -, whole, -, card⟩ := pushedLimit_keeps_count analyzed rfl compiled within returns
  cases limited
  exact ⟨level, after, result, total, compiled, within, returns, whole, card⟩

def many : Context Datum Statement := crowd ["1", "2", "3", "4", "5", "6", "7", "8"]

/-- Of nine rows the engine keeps the eight that lead nowhere. -/
theorem many_loses_row : ∃ level result total,
    ((acquaintance.nested {}).chainLevel env picks).result = .ok level ∧
      level.Returns many result ∧ level.unbounded.Returns many total ∧ result.card = 0 ∧ total.card = 1 :=
  ⟨_, _, _, rfl, ⟨_, ⟨_, RowSet.returns_frames rfl rfl rfl, _,
      (RowSet.returns_iff_of_single rfl).mpr (Select.returns_first rfl rfl rfl rfl), _,
      RowSet.returns_frames rfl rfl rfl, rfl⟩, Select.returns_first rfl rfl rfl rfl⟩,
    ⟨_, ⟨_, RowSet.returns_frames rfl rfl rfl, _, RowSet.returns_frames rfl rfl rfl, _,
      RowSet.returns_frames rfl rfl rfl, rfl⟩, (Select.returns_iff_frames rfl rfl).mpr rfl⟩,
    by decide +kernel, by decide +kernel⟩

end acquaintance

end GraphSql
