import GraphSql.Proofs.Compounds.Leaf
import GraphSql.Proofs.Compounds.Printed

namespace GraphSql

open Fragment Lexeme List Phrase Reader

/-- The lexemes begin with a word, and nothing in them ends a member. -/
structure Lexeme.IsEntire (lexemes : List Lexeme) : Prop where
  passes : Passes isKeyword lexemes
  word : ∃ word, lexemes.head? = some (.word word)

theorem IsJoined.isKeyword_eq_false {name : String} (isJoined : IsJoined name) :
    isKeyword (.word name.toList) = false :=
  isKeyword_eq_false_of_mem isJoined.underscore (by decide)

theorem Lexeme.IsEntire.append {first second : List Lexeme} (isEntire : IsEntire first)
    (passes : Passes isKeyword second) : IsEntire (first ++ second) := by
  obtain ⟨word, begins⟩ := isEntire.word
  refine ⟨isEntire.passes.append passes, word, ?_⟩
  rw [head?_append, begins]
  rfl

theorem Lexeme.isEntire_call (function : String) (free : isKeyword (.word function.toList) = false)
    {inside : List Lexeme} (balanced : Balanced inside) :
    IsEntire (.word function.toList :: .mark '(' :: (inside ++ [.mark ')'])) :=
  ⟨(passes_enclosed balanced rfl).cons free rfl, function.toList, rfl⟩

def AggregateFunction.word : AggregateFunction → String
  | .count | .countDistinct => "COUNT"
  | .sum => "SUM"
  | .average => "AVG"
  | .least => "MIN"
  | .greatest => "MAX"

/-- What stands before the argument of an aggregate function. -/
def AggregateFunction.quantifier : AggregateFunction → List Lexeme
  | .countDistinct => [.word "DISTINCT".toList]
  | .count | .sum | .average | .least | .greatest => []

namespace Term.IsCarried

variable {term : Term}

theorem reads_shaped (isCarried : term.IsCarried) : term.Reads Reference.Shaped := by
  induction term with
  | column row name => exact forall_mem_singleton.mpr ⟨isCarried.1.isFree, isCarried.2.isFree⟩
  | extract document pointer extraction ih
  | aggregate function document ih => exact ih isCarried
  | bare | output | integer | slot | now | successor | orZero | arrayLength | pathStart | pathExtend
  | distance => exact isCarried.elim

theorem exists_writes (isCarried : term.IsCarried) (index : Nat) :
    ∃ lexemes, (term.print .sqlite).Writes .sqlite index lexemes ∧ IsEntire lexemes := by
  cases term with
  | column row name =>
    obtain ⟨relation, carried⟩ := isCarried
    refine ⟨[.word row.text.toList, .mark '.', .word name.toList], ?_, ?_⟩
    · exact writes_concat [.hole row.text _, .glue ".", .hole name _] rfl rfl
        ⟨writes_name relation.shaped, writes_name carried.shaped, trivial⟩
    · refine ⟨?_, _, rfl⟩
      exact ((passes_nil.cons carried.isKeyword_eq_false rfl).cons rfl rfl).cons relation.isKeyword_eq_false rfl
  | extract document pointer extraction =>
    have inner : document.IsCarried := isCarried
    have literal : (ofString (Dialect.pathLiteral .sqlite pointer)).Lexes .sqlite := lexes_quoteLiteral _
    have lexes : (document.print .sqlite).Lexes .sqlite := lexesIn_print .sqlite inner.reads_shaped false
    obtain ⟨first, writes, balanced⟩ := lexes.exists_writes index
    obtain ⟨path, pathWrites, pathBalanced⟩ := literal.exists_writes (index + (document.print .sqlite).slots.length)
    have comma : Balanced (.mark ',' :: path) := pathBalanced.cons rfl
    refine ⟨_, ?_, isEntire_call "json_extract" rfl (balanced.append comma)⟩
    exact writes_concat [.glue "json_extract(", .hole _ first, .glue ", ", .hole _ path, .glue ")"] rfl
      (by simp [Phrase.lexemes]; rfl) ⟨writes, pathWrites, trivial⟩
  | aggregate function argument =>
    have inner : argument.IsCarried := isCarried
    have lexes : (argument.print .sqlite).Lexes .sqlite := lexesIn_print .sqlite inner.reads_shaped false
    obtain ⟨inside, writes, balanced⟩ := lexes.exists_writes index
    have fit : fits true [.glue function.opening, .hole empty [], .glue ")"] = true := by cases function <;> rfl
    have opening : (glue function.opening).lexemes =
        .word function.word.toList :: .mark '(' :: function.quantifier := by
      cases function <;> rfl
    have free : isKeyword (.word function.word.toList) = false := by cases function <;> rfl
    have quantifier : Balanced function.quantifier := by cases function <;> rfl
    refine ⟨_, ?_, isEntire_call function.word free (quantifier.append balanced)⟩
    refine writes_concat [.glue function.opening, .hole _ inside, .glue ")"] fit ?_ ⟨writes, trivial⟩
    change (glue function.opening).lexemes ++ _ = _
    rw [opening]
    simp [Phrase.lexemes]
    rfl
  | bare | output | integer | slot | now | successor | orZero | arrayLength | pathStart | pathExtend
  | distance => exact isCarried.elim

end Term.IsCarried

theorem OutputColumn.IsCarried.exists_writes {column : OutputColumn} (isCarried : column.IsCarried) (index : Nat) :
    ∃ lexemes, (column.print .sqlite).Writes .sqlite index lexemes ∧ IsEntire lexemes := by
  cases column with
  | plain term => exact Term.IsCarried.exists_writes isCarried index
  | quoted term name =>
    obtain ⟨lexemes, writes, isEntire⟩ := Term.IsCarried.exists_writes isCarried index
    have passes : Passes isKeyword [.word "AS".toList, .quoted name.toList] := (passes_nil.cons rfl rfl).cons rfl rfl
    refine ⟨_, ?_, isEntire.append passes⟩
    exact writes_concat [.hole _ lexemes, .glue " AS ", .hole _ [.quoted name.toList]] rfl rfl
      ⟨writes, writes_quoteName name, trivial⟩
  | named | every => exact isCarried.elim

theorem Reader.wrapped?_eq_none {first second : Lexeme} (rest : List Lexeme)
    (different : second ≠ .mark '*') : wrapped? (first :: second :: rest) = none := by
  cases rest with
  | nil => rfl
  | cons third others => exact if_neg fun wraps => different wraps.2.1

/-- A SELECT that reads the columns of one row set can be a member without parentheses. -/
theorem Select.isBareSelect {schema : Schema} {columns : List OutputColumn}
    (isCarried : ∀ column ∈ columns, column.IsCarried) {name : String} (isJoined : IsJoined name) :
    (Select.print .sqlite schema "\n" { columns, source := .relation name none }).IsBareSelect .sqlite := by
  intro index
  have each : ∀ column ∈ columns, ∀ index, ∃ entry,
      (column.print .sqlite).Writes .sqlite index (id entry) ∧ IsEntire entry :=
    fun column mem index => (isCarried column mem).exists_writes index
  obtain ⟨entries, founds, list⟩ := exists_writes_joinedBy ", " (.mark ',') rfl rfl each index
  rw [joinedBy_comma, map_id] at list
  have both : List.Forall₂ (fun entry _ => IsEntire entry ∧ True) entries columns :=
    founds.flip.imp fun _ _ found => ⟨found, trivial⟩
  obtain ⟨entire, -⟩ := (forall₂_and_left _ _).mp both
  have source : Passes isKeyword [.word "FROM".toList, .word name.toList] :=
    (passes_nil.cons isJoined.isKeyword_eq_false rfl).cons rfl rfl
  have listPasses : Passes isKeyword (commaJoined entries) :=
    passes_commaJoined rfl fun entry member => (entire entry member).passes
  refine ⟨.word "SELECT".toList :: (commaJoined entries ++ [.word "FROM".toList, .word name.toList]),
    ?_, (listPasses.append source).cons rfl rfl, rfl, ?_⟩
  · exact writes_concat [.glue "SELECT ", .hole _ _, .glue "\n", .glue "FROM ", .hole name [.word name.toList],
        .tail empty [], .tail empty [], .tail empty [], .tail empty [], .tail empty [], .tail empty []]
      rfl rfl
      ⟨list, writes_name isJoined.shaped, adds_empty _ _, adds_empty _ _, adds_empty _ _,
        adds_empty _ _, adds_empty _ _, adds_empty _ _, trivial⟩
  · cases entries with
    | nil => exact wrapped?_eq_none _ (by simp)
    | cons first rest =>
      obtain ⟨word, begins⟩ := (entire first mem_cons_self).word
      obtain ⟨others, rfl⟩ := head?_eq_some_iff.mp begins
      exact wrapped?_eq_none _ (by simp)

theorem RowSet.isEntry {schema : Schema} {name : String} (isJoined : IsJoined name)
    {member : Select Fragment} (lexes : (member.print .sqlite schema " ").Lexes .sqlite) :
    RowSet.IsEntry .sqlite schema { name, members := [member] } := by
  refine ⟨isJoined.underscore, fun index => ?_⟩
  obtain ⟨inside, writes, balanced⟩ := lexes.exists_writes index
  refine ⟨inside, balanced, ?_⟩
  exact writes_concat [.hole name [.word name.toList], .glue (if false then " AS MATERIALIZED (" else " AS ("),
      .hole (member.print .sqlite schema " ") inside, .glue ")"] rfl (by simp [Phrase.lexemes]; rfl)
    ⟨writes_name isJoined.shaped, writes, trivial⟩

namespace Level.IsLeaf

variable {schema : Schema} {name : String} {level : Level Statement} (isLeaf : level.IsLeaf name)

include isLeaf

theorem isBareSelect :
    ((level.select.map (Statement.print .sqlite schema)).print .sqlite schema "\n").IsBareSelect .sqlite := by
  obtain ⟨columns, isCarried, same⟩ := isLeaf.select
  rw [same]
  exact Select.isBareSelect isCarried isLeaf.isJoined

theorem isEntry (reaches : level.Scoped (Statement.Lexes .sqlite schema)) (named : level.Named) :
    ∀ rowSet ∈ level.rowSets, (rowSet.map (Statement.print .sqlite schema)).IsEntry .sqlite schema := by
  obtain ⟨member, same⟩ := isLeaf.rowSets
  rw [Level.Scoped, same] at reaches
  obtain ⟨outputs, reads, -⟩ := reaches
  have memberNamed : member.Named OutputColumn.Generated :=
    (named.rowSets _ (by rw [same]; exact mem_cons_self)).members member mem_cons_self
  have printed : (member.map (Statement.print .sqlite schema)).Scoped (Fragment.Lexes .sqlite) []
      outputs := Select.scoped_map.mpr reads.1
  rw [same, forall_mem_singleton]
  exact RowSet.isEntry isLeaf.isJoined (printed.lexes_print (.inl rfl) (memberNamed.shaped.map _) (by simp))

end Level.IsLeaf

end GraphSql
