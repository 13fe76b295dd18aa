import GraphSql.Proofs.Naming

namespace GraphSql

open Compound Fragment List Segment Traced

/-- The text ends outside of quotes, its parentheses are balanced, and it has one placeholder for
each slot, counted from one. -/
def CompiledQuery.InOrder (compiled : CompiledQuery) : Prop :=
  ∃ tokens, Lexer.tokens compiled.dialect compiled.text.toList = some tokens ∧ Token.Balanced tokens ∧
    tokens.filterMap Token.mark? = (range' 1 compiled.slots.length).map compiled.dialect.placeholder

/-- What is compiled from a fragment in order is in order. -/
theorem Fragment.Lexes.inOrder {dialect : Dialect} {fragment : Fragment}
    (lexes : fragment.Lexes dialect) (plan : Plan) :
    (CompiledQuery.mk dialect fragment plan).InOrder := by
  obtain ⟨lexemes, writes, leads⟩ := lexes 1
  obtain ⟨final, outside, reaches⟩ := writes .plain rfl
  refine ⟨_, ?_, (Lexeme.depthFrom_tokens dialect 0 lexemes).trans
    (Lexeme.depthFrom_of_reads leads.reads), leads.marks⟩
  rw [CompiledQuery.text, Fragment.text, String.toList_ofList]
  exact reaches.tokens_eq dialect outside

namespace Query

variable {opts : Options}

/-- Nested statements are in order. -/
theorem nest_lexes (opts : Options) (query : Query) : Ensures (query.fold (Block.nest opts)).outcome.result
      (Statement.Lexes opts.dialect opts.schema) := by
  refine nest_ensures_of ?_ query
  intro block graphId level plan compiled reaches
  have named := (block.compile_named { opts, graphId } (.inl rfl)).of_ok compiled
  exact Statement.lexes_mk (reaches.lexes_map named)

/-- What a query is compiled to reads shaped names in its own reach, and its nested statements are in order. -/
theorem compileBlock_shaped (query : Query) (env : Setting) (isTag : IsTag env.tag) :
    Returns ((query.nested opts).compile env).result fun (level, _) =>
      level.Scoped (Statement.Lexes opts.dialect opts.schema) ∧ level.Named := by
  have ensured := Block.compile_ensures (query.nested_ensures_of (nest_lexes opts)) env
  apply (ensured.and_returns (Block.compile_named _ env isTag)).returns.imp
  rintro ⟨level, plan⟩ ⟨sound, named⟩
  exact ⟨sound.1, named⟩

theorem compileBlock_lexes (query : Query) (env : Setting) (isTag : IsTag env.tag) :
    Returns ((query.nested opts).compile env).result fun (level, _) =>
      (level.map (Statement.print opts.dialect opts.schema)).Lexes opts.dialect opts.schema :=
  (query.compileBlock_shaped env isTag).imp fun _ shaped => shaped.1.lexes_map shaped.2

theorem compile_inOrder (opts : Options) (graphId : String) (query : Query) :
    Returns (query.compile opts graphId).result fun compiled =>
      compiled.dialect = opts.dialect ∧ compiled.InOrder := by
  unfold compile statement
  simp only [result_bind, result_logged, result_pure, returns_bind, returns_ok]
  apply (query.compileBlock_lexes { opts, graphId } (.inl rfl)).imp
  rintro ⟨level, plan⟩ lexes
  exact ⟨rfl, (Statement.lexes_mk lexes).inOrder plan⟩

end Query

section Compound

variable {dialect : Dialect} {schema : Schema}

/-- The members of a compound are in order, and so are the columns that order its rows. -/
structure Compound.InOrder (dialect : Dialect) (schema : Schema) (compound : Compound) : Prop where
  first : (compound.first.print dialect schema).Lexes dialect
  rest : ∀ entry ∈ compound.rest, (entry.2.print dialect schema).Lexes dialect
  orderBy : ∀ key ∈ compound.orderBy, key.term.Reads Reference.Shaped

theorem Compound.continues_printRest {rest : List (SetOperator × Member)}
    (each : ∀ entry ∈ rest, (entry.2.print dialect schema).Lexes dialect) :
    (printRest dialect schema rest).Continues dialect := by
  induction rest with
  | nil =>
    rw [printRest]
    exact continues_empty dialect
  | cons entry others ih =>
    obtain ⟨op, member⟩ := entry
    rw [forall_mem_cons] at each
    have fit : Fit dialect false [.glue "\n", .glue op.keyword, .glue "\n", .hole empty, .tail empty] := by
      cases op <;> rfl
    rw [printRest]
    exact continues_concat [.glue "\n", .glue op.keyword, .glue "\n", .hole (member.print dialect schema),
        .tail (printRest dialect schema others)] fit
      ⟨each.1, ih each.2, trivial⟩

theorem Compound.InOrder.lexes_print {compound : Compound}
    (inOrder : compound.InOrder dialect schema) : (compound.print dialect schema).Lexes dialect := by
  cases compound with
  | mk first rest orderBy bounds =>
    rw [print]
    exact lexes_concat [.hole _, .tail _, .tail _, .tail _] rfl ⟨inOrder.first, continues_printRest inOrder.rest,
        continues_printOrderBy (.inr rfl) inOrder.orderBy, continues_printBounds (.inr rfl) bounds,
        trivial⟩

/-- One side of a set operation is in order. -/
def Branch.InOrder (dialect : Dialect) (schema : Schema) : Branch → Prop
  | .member single => (single.print dialect schema).Lexes dialect
  | .compound body => body.InOrder dialect schema

section

variable {branch : Branch} (inOrder : branch.InOrder dialect schema) (strategy : CompoundStrategy)

include inOrder

theorem Branch.InOrder.asMember : ((branch.asMember strategy).print dialect schema).Lexes dialect := by
  cases branch with
  | member single => exact inOrder
  | compound body =>
    have enclosed : (body.print dialect schema).parenthesized.Lexes dialect :=
      Dialect.lexes_parenthesized (Compound.InOrder.lexes_print inOrder)
    cases strategy with
    | parenthesized =>
      rw [Branch.asMember, Member.print]
      exact enclosed
    | hoisted =>
      rw [Branch.asMember, Member.print]
      exact lexes_concat [.glue "SELECT * FROM ", .hole _] rfl ⟨enclosed, trivial⟩

theorem Branch.InOrder.asChain : ((branch.asChain strategy).1.print dialect schema).Lexes dialect ∧
      ∀ entry ∈ (branch.asChain strategy).2, (entry.2.print dialect schema).Lexes dialect := by
  unfold Branch.asChain
  split
  · exact ⟨inOrder.first, inOrder.rest⟩
  · exact ⟨inOrder.asMember _, by simp⟩

end

/-- The row sets that a part of a set operation needs are in order. -/
def Combined.RowSetsInOrder {α : Type} (dialect : Dialect) (schema : Schema) (combined : Combined α) : Prop :=
  ∀ rowSet ∈ combined.rowSets, ((rowSet.map (Statement.print dialect schema)).print dialect schema).Lexes dialect

end Compound

theorem Query.compileLeaf_inOrder (opts : Options) (graphId : String) (index : Nat) (query : Query) :
    Returns (query.compileLeaf opts graphId index).result fun combined =>
      combined.body.InOrder opts.dialect opts.schema ∧ combined.RowSetsInOrder opts.dialect opts.schema := by
  unfold compileLeaf
  simp only [result_bind, returns_bind]
  apply (query.compileBlock_lexes _ (isTag_leafTag _ index)).imp
  rintro ⟨level, plan⟩ lexes
  dsimp only
  split
  · refine ⟨?_, fun rowSet mem => lexes.rowSets _ (mem_map_of_mem mem)⟩
    rw [Branch.InOrder, Member.print]
    exact lexes.select
  · refine ⟨?_, by simp [Combined.RowSetsInOrder]⟩
    rw [Branch.InOrder, Member.print]
    exact Dialect.lexes_parenthesized (Statement.lexes_mk lexes)

theorem orderColumns_shaped (projections : List Projection) (orders : List Order) :
    Returns (orderColumns projections orders) fun keys => ∀ key ∈ keys, key.term.Reads Reference.Shaped := by
  have one : ∀ order, Returns (orderColumn projections order) fun key => key.term.Reads Reference.Shaped := by
    intro order
    unfold orderColumn
    rw [returns_bind]
    refine returns_all fun target => ?_
    dsimp only
    split
    · exact forall_mem_singleton.mpr trivial
    · trivial
  unfold orderColumns
  split
  · simp
  · split
    · trivial
    · exact (returns_mapM fun order _ => one order).imp fun _ each => forall_mem_of_forall₂ each.flip

theorem SetOperand.combine_inOrder (opts : Options) (graphId : String) (operand : SetOperand) (index : Nat) :
    Returns (operand.combine opts graphId index).result fun combined =>
      combined.body.InOrder opts.dialect opts.schema ∧ combined.RowSetsInOrder opts.dialect opts.schema := by
  induction operand generalizing index with
  | query query => simpa [SetOperand.combine] using query.compileLeaf_inOrder opts graphId index
  | operation op left right orderBy limit offset ofLeft ofRight =>
    simp only [SetOperand.combine, SetOperation.combine, Traced.result_bind, Traced.result_pure,
      returns_bind, returns_ok]
    apply (ofLeft index).imp
    rintro first ⟨firstInOrder, firstRowSets⟩
    apply (ofRight _).imp
    rintro second ⟨secondInOrder, secondRowSets⟩
    apply (orderColumns_shaped left.leftmost.block.projection orderBy).imp
    intro keys shaped
    refine returns_all fun _ => ?_
    obtain ⟨head, rest⟩ := firstInOrder.asChain opts.dialect.capabilities.compound
    refine ⟨⟨head, forall_mem_append.mpr ⟨rest, ?_⟩, shaped⟩, ?_⟩
    · exact forall_mem_singleton.mpr (secondInOrder.asMember _)
    · exact forall_mem_append.mpr ⟨firstRowSets, secondRowSets⟩

theorem SetOperation.compile_inOrder (opts : Options) (graphId : String) (operation : SetOperation) :
    Returns (operation.compile opts graphId).result fun compiled =>
      compiled.dialect = opts.dialect ∧ compiled.InOrder := by
  unfold compile statement
  simp only [result_bind, result_logged, result_pure, returns_bind, returns_ok]
  refine returns_all fun _ => returns_all fun _ => ?_
  have made := SetOperand.combine_inOrder opts graphId (.operation operation) 0
  simp only [SetOperand.combine, result_bind, result_pure, returns_bind, returns_ok] at made
  apply made.imp
  rintro combined ⟨inOrder, rowSets⟩
  refine ⟨rfl, Fragment.Lexes.inOrder (lexes_printRowSets ?_ inOrder.lexes_print) _⟩
  intro rowSet member
  obtain ⟨original, mem, rfl⟩ := mem_map.mp member
  exact rowSets original mem

/-- Whatever is compiled, its text ends outside of quotes, its parentheses are balanced, and its
placeholders are those of its slots, from the first to the last. -/
theorem compiled_inOrder (opts : Options) (graphId : String) (compiled : CompiledQuery)
    (returned : (∃ query : Query, (query.compile opts graphId).result = .ok compiled) ∨
      ∃ operation : SetOperation, (operation.compile opts graphId).result = .ok compiled) :
    compiled.dialect = opts.dialect ∧ compiled.InOrder := by
  rcases returned with ⟨query, same⟩ | ⟨operation, same⟩
  · exact (query.compile_inOrder opts graphId).of_ok same
  · exact (operation.compile_inOrder opts graphId).of_ok same

/-- A query whose kind, path and value are full of marks. -/
def markedQuery : Query :=
  .mk ((Block.ofKind "a" "it's \"($1?").filterBy .node "a"
    (.comparison (.ofPointer "a" ⟨["o'clock)", "\"$2", "?"]⟩) .equal (.literal (.string "')? $3 (\"") none)))

def markedUnion : SetOperation := .plain .union (.query markedQuery) (.query markedQuery)

theorem markedUnion_compiles :
    ∃ compiled, (markedUnion.compile { dialect := .postgres } "$1\"").result = .ok compiled := by
  have widths : result (liftM markedUnion.checkWidths) = .ok () := by
    have none : markedUnion.widths = [].mergeSort := rfl
    simp [SetOperation.checkWidths, none]
    rfl
  unfold SetOperation.compile SetOperation.statement
  simp only [result_bind, result_logged, widths]
  exact ⟨_, rfl⟩

theorem markedQuery_inOrder :
    (∃ compiled, (markedQuery.compile {} "g'(?").result = .ok compiled ∧
        compiled.dialect = .sqlite ∧ compiled.InOrder) ∧
      ∃ compiled, (markedUnion.compile { dialect := .postgres } "$1\"").result = .ok compiled ∧
        compiled.dialect = .postgres ∧ compiled.InOrder := by
  refine ⟨⟨_, rfl, compiled_inOrder {} "g'(?" _ (.inl ⟨markedQuery, rfl⟩)⟩, ?_⟩
  obtain ⟨compiled, returned⟩ := markedUnion_compiles
  exact ⟨compiled, returned, compiled_inOrder _ _ _ (.inr ⟨markedUnion, returned⟩)⟩

end GraphSql
