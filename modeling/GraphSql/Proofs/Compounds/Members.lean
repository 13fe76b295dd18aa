import GraphSql.Proofs.Compounds.Tree

namespace GraphSql

open Compound List Traced

mutual

/-- The levels of the leaves of a member, from left to right. A leaf whose row sets stand before the
whole compound has none of its own. -/
def Member.levels : Member → List (Level Statement)
  | .select body => [{ rowSets := [], select := body }]
  | .statement body => [body.level]
  | .grouped body => Compound.levels body
  | .wrapped body => Compound.levels body

def Compound.levels : Compound → List (Level Statement)
  | .mk first rest _ _ => Member.levels first ++ Compound.restLevels rest

def Compound.restLevels : List (SetOperator × Member) → List (Level Statement)
  | [] => []
  | (_, member) :: rest => Member.levels member ++ Compound.restLevels rest

end

theorem Compound.restLevels_concat (rest : List (SetOperator × Member)) (op : SetOperator) (member : Member) :
    restLevels (rest ++ [(op, member)]) = restLevels rest ++ member.levels := by
  induction rest with
  | nil => simp [restLevels]
  | cons entry others ih => rw [cons_append, restLevels, ih, restLevels, append_assoc]

namespace Branch

def levels : Branch → List (Level Statement)
  | .member single => single.levels
  | .compound body => body.levels

theorem levels_asMember (strategy : CompoundStrategy) (branch : Branch) :
    (branch.asMember strategy).levels = branch.levels := by
  cases branch with
  | member single => rfl
  | compound body =>
    cases strategy with
    | hoisted =>
      change (Member.wrapped body).levels = body.levels
      rw [Member.levels]
    | parenthesized =>
      change (Member.grouped body).levels = body.levels
      rw [Member.levels]

theorem levels_asChain (strategy : CompoundStrategy) (branch : Branch) :
    (branch.asChain strategy).1.levels ++ restLevels (branch.asChain strategy).2 = branch.levels := by
  unfold asChain
  split
  · next first rest =>
    change _ = (Compound.mk first rest [] none).levels
    rw [Compound.levels]
  · rw [levels_asMember, restLevels, List.append_nil]

end Branch

/-- What is left of a level in a compound. -/
def Level.inCompound (dialect : Dialect) (level : Level Statement) : Level Statement :=
  match dialect.capabilities.compound with
  | .hoisted => { rowSets := [], select := level.select }
  | .parenthesized => level

@[simp] theorem Level.select_inCompound (dialect : Dialect) (level : Level Statement) :
    (level.inCompound dialect).select = level.select := by
  cases dialect <;> rfl

/-- The levels and the row sets before them are what the leaves are compiled into, where the first
leaf has the given position. -/
def CompiledLeaves (opts : Options) (graphId : String) (index : Nat) (leaves : List Query)
    (levels : List (Level Statement)) (rowSets : List (RowSet Statement)) : Prop :=
  ∃ compiled, List.Forall₂ (fun leaf level => leaf.1.HasLeafLevel opts graphId leaf.2 level)
      (leaves.zipIdx index) compiled ∧
    levels = compiled.map (Level.inCompound opts.dialect) ∧
    rowSets = leafRowSets opts.dialect compiled

theorem CompiledLeaves.append {opts : Options} {graphId : String} {index : Nat}
    {leaves others : List Query} {levels further : List (Level Statement)}
    {rowSets laterRowSets : List (RowSet Statement)}
    (first : CompiledLeaves opts graphId index leaves levels rowSets)
    (second : CompiledLeaves opts graphId (index + leaves.length) others further laterRowSets) :
    CompiledLeaves opts graphId index (leaves ++ others) (levels ++ further) (rowSets ++ laterRowSets) := by
  obtain ⟨compiled, each, rfl, rfl⟩ := first
  obtain ⟨later, eachLater, rfl, rfl⟩ := second
  refine ⟨compiled ++ later, ?_, ?_, ?_⟩
  · rw [zipIdx_append]
    exact rel_append each eachLater
  · rw [map_append]
  · rw [leafRowSets_append]

theorem Query.compileLeaf_levels (opts : Options) (graphId : String) (index : Nat) (query : Query) :
    Returns (query.compileLeaf opts graphId index).result fun combined =>
      CompiledLeaves opts graphId index [query] combined.body.levels combined.rowSets := by
  unfold compileLeaf
  simp only [result_bind, returns_bind]
  apply (query.compileBlock_ensures opts (query.leafSetting opts graphId index)).attach.returns.imp
  rintro ⟨level, plan⟩ ⟨compiled, -⟩
  dsimp only
  have hasLevel : query.HasLeafLevel opts graphId index level := ⟨plan, compiled⟩
  have each : List.Forall₂ (fun leaf level => leaf.1.HasLeafLevel opts graphId leaf.2 level)
      ([query].zipIdx index) [level] := .cons hasLevel .nil
  cases known : opts.dialect with
  | sqlite =>
    refine ⟨[level], each, ?_, ?_⟩
    · rw [known]
      change (Member.select level.select).levels = _
      rw [Member.levels]
      rfl
    · rw [known]
      exact (flatMap_singleton _ _).symm
  | postgres =>
    refine ⟨[level], each, ?_, ?_⟩
    · rw [known]
      change (Member.statement (.mk level)).levels = _
      rw [Member.levels]
      rfl
    · rw [known]
      rfl

theorem SetOperand.combine_levels (opts : Options) (graphId : String) (operand : SetOperand) (index : Nat) :
    Returns (operand.combine opts graphId index).result fun combined =>
      CompiledLeaves opts graphId index operand.leaves combined.body.levels combined.rowSets := by
  induction operand generalizing index with
  | query query => exact query.compileLeaf_levels opts graphId index
  | operation op left right orderBy limit offset ofLeft ofRight =>
    simp only [SetOperand.combine, SetOperation.combine, Traced.result_bind, Traced.result_pure,
      returns_bind, returns_ok]
    apply (ofLeft index).imp
    intro first firstLevels
    apply (ofRight _).imp
    intro second secondLevels
    refine returns_all fun keys => returns_all fun _ => ?_
    rw [Branch.levels, Compound.levels, Compound.restLevels_concat, ← append_assoc,
      Branch.levels_asChain, Branch.levels_asMember]
    exact firstLevels.append secondLevels

theorem SetOperation.statement_levels (opts : Options) (graphId : String) (operation : SetOperation) :
    Returns (operation.statement opts graphId).result fun result =>
      CompiledLeaves opts graphId 0 operation.leaves result.1.body.levels result.1.rowSets := by
  unfold statement
  simp only [result_bind, result_logged, result_pure, returns_bind, returns_ok]
  refine returns_all fun _ => returns_all fun _ => ?_
  have made := SetOperand.combine_levels opts graphId (.operation operation) 0
  simp only [SetOperand.combine, result_bind, result_pure, returns_bind, returns_ok] at made
  exact made

end GraphSql
