import GraphSql.Proofs.CompiledText
import GraphSql.Proofs.Compounds.LeafText
import GraphSql.Proofs.Placement

namespace GraphSql

open Fragment Lexeme List

namespace Lexeme

/-- How joined conditions are read after a part of an operand: the operands of AND in each operand of OR. A
BETWEEN takes the next AND as its own, and of the other joining words AND binds more tightly than OR. -/
def groups (site : Nat × Bool) (operand : List Lexeme) : List Lexeme → List (List (List Lexeme))
  | [] => [[operand]]
  | lexeme :: rest =>
      match read true site lexeme with
      | some next => groups next (operand ++ [lexeme]) rest
      | none =>
          if lexeme.isWord "OR" then [operand] :: groups (0, false) [] rest
          else (groups (0, false) [] rest).modifyHead (operand :: ·)

/-- The parentheses are balanced, and outside of them there is no AND and no OR but the AND of a BETWEEN. -/
structure IsOperand (lexemes : List Lexeme) : Prop where
  balanced : Balanced lexemes
  reads : lexemes.foldlM (read true) (0, false) = some (0, false)

theorem isOperand_of_reads {lexemes : List Lexeme}
    (reads : lexemes.foldlM (read true) (0, false) = some (0, false)) : IsOperand lexemes :=
  ⟨depthFrom_of_reads reads, reads⟩

/-- What a free text is read with is taken into the operand. -/
theorem groups_append {lexemes : List Lexeme} {site after : Nat × Bool}
    (reads : lexemes.foldlM (read true) site = some after) (operand rest : List Lexeme) :
    groups site operand (lexemes ++ rest) = groups after (operand ++ lexemes) rest := by
  induction lexemes generalizing site operand with
  | nil =>
    cases reads
    rw [nil_append, append_nil]
  | cons lexeme others ih =>
    obtain ⟨middle, first, further⟩ := Option.bind_eq_some_iff.mp reads
    have whole := ih further (operand ++ [lexeme])
    rw [append_assoc, singleton_append] at whole
    rw [cons_append, groups, first]
    exact whole

/-- The operands are joined as the word joins them. -/
def grouped (word : String) (operands : List (List Lexeme)) : List (List (List Lexeme)) :=
  if word = "AND" then [operands] else operands.map ([·])

/-- Operands that are joined by a word are read as they were joined. -/
theorem groups_joinedBy {word : String} (isConnective : word = "AND" ∨ word = "OR") {first : List Lexeme}
    {rest : List (List Lexeme)} (each : ∀ operand ∈ first :: rest, IsOperand operand) :
    groups (0, false) [] ((Lexeme.word word.toList).joinedBy (first :: rest)) = grouped word (first :: rest) := by
  induction rest generalizing first with
  | nil =>
    rw [joinedBy, groups_append (each first (.head _)).reads]
    rcases isConnective with rfl | rfl <;> rfl
  | cons next others ih =>
    obtain ⟨isOperand, each⟩ := forall_mem_cons.mp each
    have further := ih each
    rw [joinedBy, groups_append isOperand.reads, flatMap_cons]
    rcases isConnective with rfl | rfl
    · exact congrArg (modifyHead (first :: ·)) further
    · exact congrArg ([first] :: ·) further

end Lexeme

namespace Fragment

variable {dialect : Dialect}

theorem LexesIn.exists_isOperand {fragment : Fragment} (lexes : fragment.LexesIn dialect true false)
    (index : Nat) : ∃ lexemes, fragment.Writes dialect index lexemes ∧ IsOperand lexemes := by
  obtain ⟨lexemes, writes, leads⟩ := lexes index
  exact ⟨lexemes, writes, isOperand_of_reads leads.reads⟩

/-- Put together with the word, the fragments are read as its operands, and the negation of that is
read as one operand. -/
def JoinsBy (dialect : Dialect) (word : String) (fragments : List Fragment) : Prop :=
  ∀ index, ∃ operands negated,
    Forall₂ (fun fragment operand => (∃ start, fragment.Writes dialect start operand) ∧ IsOperand operand)
      fragments operands ∧
    (join (" " ++ word ++ " ") fragments).Writes dialect index ((Lexeme.word word.toList).joinedBy operands) ∧
    groups (0, false) [] ((Lexeme.word word.toList).joinedBy operands) = grouped word operands ∧
    (ofString "NOT (" ++ join (" " ++ word ++ " ") fragments ++ ")").Writes dialect index negated ∧
    IsOperand negated ∧ groups (0, false) [] negated = [[negated]]

/-- Texts without free joining words can be joined by AND and by OR. -/
theorem joinsBy {word : String} (isConnective : word = "AND" ∨ word = "OR") {fragments : List Fragment}
    (present : fragments ≠ []) (each : ∀ fragment ∈ fragments, fragment.LexesIn dialect true false) :
    JoinsBy dialect word fragments := by
  intro index
  have operand : ∀ fragment ∈ fragments, ∀ start, ∃ lexemes, fragment.Writes dialect start lexemes ∧
      (∃ start, fragment.Writes dialect start lexemes) ∧ IsOperand lexemes := by
    intro fragment member start
    obtain ⟨lexemes, writes, isOperand⟩ := (each fragment member).exists_isOperand start
    exact ⟨lexemes, writes, ⟨start, writes⟩, isOperand⟩
  obtain ⟨operands, founds, writes⟩ :=
    @exists_writes_joinedBy dialect _ _ (" " ++ word ++ " ") (.word word.toList) id id _ fragments
      (by rcases isConnective with rfl | rfl <;> rfl)
      (by rcases isConnective with rfl | rfl <;> rfl) operand index
  rw [map_id, map_id] at writes
  have mem : (join (" " ++ word ++ " ") fragments).Lexes dialect :=
    lexes_join (by rcases isConnective with rfl | rfl <;> rfl) fun fragment member => (each fragment member).lexes
  have enclosed : (ofString "NOT (" ++ join (" " ++ word ++ " ") fragments ++ ")").LexesIn dialect true false :=
    Segment.lexesIn_concat [.glue "NOT (", .hole _, .glue ")"] rfl ⟨mem, trivial⟩
  obtain ⟨negated, written, isOperand⟩ := enclosed.exists_isOperand index
  refine ⟨operands, negated, founds, writes, ?_, written, isOperand, ?_⟩
  · have closed := forall_mem_of_forall₂ (founds.flip.imp fun _ _ found => found.2)
    cases founds with
    | nil => contradiction
    | cons => exact groups_joinedBy isConnective closed
  · have whole := groups_append isOperand.reads [] []
    rwa [append_nil, nil_append] at whole

end Fragment

section Clauses

variable {dialect : Dialect} {schema : Schema}

/-- Conditions that read shaped names can be joined by AND and by OR. -/
theorem Condition.joinsBy_printAll {word : String} (isConnective : word = "AND" ∨ word = "OR")
    {conditions : Conditions} (present : conditions ≠ [])
    (admitted : ∀ condition ∈ conditions, condition.Admits Reference.Shaped (Statement.Lexes dialect schema)) :
    JoinsBy dialect word (printAll dialect (mapAll (Statement.print dialect schema) conditions)) := by
  have mapped : ∀ condition ∈ mapAll (Statement.print dialect schema) conditions,
      condition.Admits Reference.Shaped (Fragment.Lexes dialect) := forall_admits_mapAll.mpr admitted
  refine joinsBy isConnective (by simpa [printAll_eq_map, mapAll_eq_map] using present) ?_
  exact lexes_printAll fun condition mem => condition.lexesIn_print dialect (mapped condition mem)

/-- After the keyword, the conditions are written with AND between them, and this text is read as the AND
of these conditions, whatever AND and OR are in them. -/
def Condition.Conjoined (dialect : Dialect) (schema : Schema) (keyword : String)
    (conditions : Conditions) (text : Fragment) : Prop :=
  let printed := printAll dialect (mapAll (Statement.print dialect schema) conditions)
  (∃ before after, text = before ++ keyword ++ join " AND " printed ++ after) ∧ JoinsBy dialect "AND" printed

/-- The WHERE of a SELECT is read as the AND of its conditions, and so is the ON of each of its joins. -/
def Select.Conjoins (dialect : Dialect) (schema : Schema) (select : Select Statement) : Prop :=
  ∀ gap, (select.conditions ≠ [] → Condition.Conjoined dialect schema "WHERE " select.conditions
      ((select.map (Statement.print dialect schema)).print dialect schema gap)) ∧
    ∀ joined ∈ select.joins, joined.conditions ≠ [] → Condition.Conjoined dialect schema " ON " joined.conditions
      ((joined.map (Statement.print dialect schema)).print dialect schema gap)

theorem Fragment.append_regroup (first second third fourth fifth sixth seventh eighth : Fragment) :
    first ++ (second ++ third ++ fourth) ++ fifth ++ sixth ++ seventh ++ eighth =
      first ++ second ++ third ++ fourth ++ (fifth ++ sixth ++ seventh ++ eighth) :=
  congrArg Fragment.mk (by simp [pieces_append])

/-- The conditions stand in the text of their SELECT. -/
theorem Select.exists_print {select : Select Fragment} (present : select.conditions ≠ []) (gap : String) :
    ∃ before after, select.print dialect schema gap =
      before ++ "WHERE " ++ join " AND " (Condition.printAll dialect select.conditions) ++ after := by
  have some : Condition.printAll dialect select.conditions ≠ [] := by
    simpa [Condition.printAll_eq_map] using present
  obtain ⟨first, rest, same⟩ := exists_cons_of_ne_nil some
  rw [Select.print, same]
  exact ⟨_, _, append_regroup _ _ _ _ _ _ _ _⟩

/-- The SELECTs of a scoped level of shaped names write their conditions as they mean them. -/
theorem Level.Scoped.conjoins {level : Level Statement} (reaches : level.Scoped (Statement.Lexes dialect schema))
    (named : level.Named) : ∀ select ∈ level.selects, select.Conjoins dialect schema := by
  intro select member gap
  obtain ⟨names, known, outputs, declared, isScoped⟩ := reaches.selects_shaped named select member
  obtain ⟨first, reach, -, shaped, joins, reads, -⟩ := isScoped.shaped names declared
  refine ⟨fun present => ⟨?_, ?_⟩, fun joined mem present => ⟨?_, ?_⟩⟩
  · exact Select.exists_print (by simpa [Select.map, Condition.mapAll_eq_map] using present) gap
  · exact Condition.joinsBy_printAll (.inl rfl) present fun condition inWhere =>
      (reads.conditions condition inWhere).shaped shaped
  · exact ⟨_, .empty, congrArg Fragment.mk (append_nil _).symm⟩
  · exact Condition.joinsBy_printAll (.inl rfl) present (joins joined mem).2

end Clauses

namespace Scope

/-- Every column that the scope gives can stand beside joining words. -/
def IsFree (scope : Scope) : Prop :=
  ∀ aliasName column, Returns (scope.column aliasName column) (Term.Reads Reference.Shaped)

theorem isFree_ofTables (tables : List (String × Element)) : (ofTables tables).IsFree := by
  intro aliasName column
  unfold ofTables
  dsimp only
  split
  · trivial
  · next element _ =>
    rw [returns_bind]
    refine returns_all fun _ => forall_mem_singleton.mpr ?_
    cases element <;> cases column <;> exact ⟨⟨rfl, rfl⟩, rfl, rfl⟩

theorem isFree_relations {relations : Relations} (joined : relations.AreJoined) (aggregates : Bool) :
    (relations.scope aggregates).IsFree :=
  fun aliasName column => (joined.isCarried_scope aggregates aliasName column).imp fun _ isCarried =>
    isCarried.reads_shaped

end Scope

namespace Block

variable {σ : Type} {block : Block σ} {env : Setting} {picks : Decisions} {scope : Scope}

/-- The scopes in which the predicates of a query are lowered: the tables inside of a row set, or the
row sets that the final SELECT reads. -/
inductive HasScope (block : Block σ) (env : Setting) (picks : Decisions) : Scope → Prop
  | tables (tables : List (String × Element)) : HasScope block env picks (.ofTables tables)
  | chain (aggregates : Bool) : HasScope block env picks ((block.relations env picks).scope aggregates)
  | walk (walk : Walk) (taken : walk.hop ∈ block.traversals) (aggregates : Bool) :
      HasScope block env picks ((walk.relations block env picks).scope aggregates)

/-- Every scope of a query is free. -/
theorem HasScope.isFree (hasScope : block.HasScope env picks scope) (shaped : block.Shaped)
    (isTag : IsTag env.tag) : scope.IsFree := by
  cases hasScope with
  | tables => exact Scope.isFree_ofTables _
  | chain aggregates => exact Scope.isFree_relations (relations_areJoined isTag shaped picks) aggregates
  | walk walk taken aggregates =>
    refine Scope.isFree_relations (fun carried member => ?_) aggregates
    obtain ⟨aliasName, mem, rfl⟩ := mem_map.mp member
    refine ⟨isJoined_recursiveName isTag, ?_⟩
    rcases mem_pair.mp mem with rfl | rfl
    · exact shaped.start
    · exact (shaped.hops _ taken).node

end Block

namespace Predicate

variable {env : Setting} {scope : Scope}

/-- What lowered predicates read can stand beside joining words, and their nested statements are in order. -/
theorem lowerAll_admits (isFree : scope.IsFree) (predicates : List (Predicate Query)) (opts : Options) :
    Returns (lowerAll opts.dialect scope (mapAll (Query.fold (Block.nest opts)) predicates)).result
      fun conditions => ∀ condition ∈ conditions, condition.Admits Reference.Shaped
        (Statement.Lexes opts.dialect opts.schema) := by
  have nested : ∀ query ∈ nestedOf (mapAll (Query.fold (Block.nest opts)) predicates),
      Returns query.outcome.result (Statement.Lexes opts.dialect opts.schema) := by
    intro query mem
    rw [mapAll_eq_map, nestedOf_eq_flatMap, flatMap_map] at mem
    obtain ⟨predicate, -, inside⟩ := mem_flatMap.mp mem
    rw [nested_map] at inside
    obtain ⟨original, -, rfl⟩ := mem_map.mp inside
    exact (Query.nest_lexes opts original).returns
  have lowered := (simulation_admits sequential_follows Reference.Shaped
    (Statement.Lexes opts.dialect opts.schema)).lowerAll_same opts.dialect rfl
    (fun _ closed => closed) _ (fun field _ column _ => (isFree field.aliasName column).follows)
    fun query mem => (nested query mem).follows
  exact Returns.imp lowered fun _ found => found.elim fun _ both => forall_mem_of_forall₂ both.2

/-- Predicates that are lowered in a scope of a query can be joined, whatever they are: no AND and no OR
stands outside of the parentheses of one but the AND of a range. So a list of them that is joined by AND
has the conditions as its operands, one that is joined by OR has them as its alternatives, and the
negation of either is one operand again. -/
theorem joinsBy_lowerAll {σ : Type} {block : Block σ} (shaped : block.Shaped) (isTag : IsTag env.tag)
    {picks : Decisions} (hasScope : block.HasScope env picks scope)
    {predicates : List (Predicate Query)} (present : predicates ≠ []) {conditions : Conditions}
    (lowered : (lowerAll env.opts.dialect scope
      (mapAll (Query.fold (Block.nest env.opts)) predicates)).result = .ok conditions) :
    let dialect := env.opts.dialect
    let printed := Condition.printAll dialect
      (Condition.mapAll (Statement.print dialect env.opts.schema) conditions)
    printed.length = predicates.length ∧ JoinsBy dialect "AND" printed ∧ JoinsBy dialect "OR" printed := by
  intro dialect printed
  have admitted := (lowerAll_admits (hasScope.isFree shaped isTag) predicates env.opts).of_ok lowered
  have same := ((lowerAll_forall₂ dialect scope _).of_ok lowered).length_eq
  rw [mapAll_eq_map, length_map] at same
  have some : conditions ≠ [] := by
    rintro rfl
    exact present (length_eq_zero_iff.mp same)
  refine ⟨?_, Condition.joinsBy_printAll (.inl rfl) some admitted, Condition.joinsBy_printAll (.inr rfl) some admitted⟩
  simp only [printed, same, Condition.printAll_eq_map, Condition.mapAll_eq_map, length_map]

/-- Someone of an age in a range, and without a name or without a mail address. -/
def agedUnnamed : List (Predicate Query) :=
  [.between (.ofProperty "p" "age") (.literal (.ofNat 30) none) (.literal (.ofNat 40) none),
    .or [.nullCheck (.ofProperty "p" "name") .isNull, .nullCheck (.ofProperty "p" "mail") .isNull]]

theorem joinsBy_agedUnnamed : ∃ conditions, (lowerAll .postgres (.ofTables [("p", .node)])
        (mapAll (Query.fold (Block.nest { dialect := .postgres })) agedUnnamed)).result = .ok conditions ∧
      JoinsBy .postgres "AND" (Condition.printAll .postgres
        (Condition.mapAll (Statement.print .postgres {}) conditions)) := by
  let people : Block Query := { start := { aliasName := "p", kinds := [] } }
  let env : Setting := { opts := { dialect := .postgres }, graphId := "g" }
  have shaped : people.Shaped := ⟨(rfl : IsShaped "p"), by simp [people]⟩
  have hasScope : people.HasScope env (people.leafDecisions env.opts) (.ofTables [("p", .node)]) := .tables _
  have joined := joinsBy_lowerAll shaped (.inl rfl) hasScope (by decide)
    (rfl : (lowerAll .postgres _ (mapAll _ agedUnnamed)).result = _)
  exact ⟨_, rfl, joined.2.1⟩

end Predicate

end GraphSql
