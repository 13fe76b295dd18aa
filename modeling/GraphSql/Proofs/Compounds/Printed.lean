import GraphSql.Proofs.CompiledText
import GraphSql.Proofs.Compounds.Clauses

namespace GraphSql

open Compound Fragment Lexeme List Phrase Reader

variable {fragment : Fragment} {entry : String × List Lexeme} {lexemes : List Lexeme}

mutual

/-- What a member stands for: the text of a leaf, or a tree. -/
def Member.tree (dialect : Dialect) (schema : Schema) : Member → SetTree Fragment
  | .select body => .leaf ((body.map (Statement.print dialect schema)).print dialect schema "\n")
  | .statement body => .leaf (body.print dialect schema)
  | .grouped body | .wrapped body => Compound.tree dialect schema body

/-- What a compound stands for: its members from left to right, and its clauses for the whole. -/
def Compound.tree (dialect : Dialect) (schema : Schema) : Compound → SetTree Fragment
  | .mk first rest orderBy bounds =>
      (Member.tree dialect schema first).chain (Compound.restTrees dialect schema rest)
        (.ofKeys orderBy (bounds.bind Bounds.limit) (bounds.bind Bounds.offset))

def Compound.restTrees (dialect : Dialect) (schema : Schema) :
    List (SetOperator × Member) → List (SetOperator × SetTree Fragment)
  | [] => []
  | (op, member) :: rest =>
      (op, Member.tree dialect schema member) :: Compound.restTrees dialect schema rest

end

/-- The lexemes are those of a text with the fragment's slots numbered from some position on. -/
def IsWritten (dialect : Dialect) (lexemes : List Lexeme) (fragment : Fragment) : Prop :=
  ∃ index, fragment.Writes dialect index lexemes

/-- The fragment is a SELECT that can be a member without parentheses: nothing in it ends a member,
and it does not read all of a compound. -/
def Fragment.IsBareSelect (dialect : Dialect) (fragment : Fragment) : Prop :=
  ∀ index, ∃ lexemes, fragment.Writes dialect index lexemes ∧ Passes isKeyword lexemes ∧
    lexemes.head?.any (isWord "SELECT") = true ∧ wrapped? lexemes = none

mutual

/-- The member is written as the dialect writes members. -/
def Member.Readable (dialect : Dialect) (schema : Schema) : Member → Prop
  | .select body =>
      dialect = .sqlite ∧ ((body.map (Statement.print dialect schema)).print dialect schema "\n").IsBareSelect dialect
  | .statement body => dialect = .postgres ∧ body.Lexes dialect schema
  | .grouped body => dialect = .postgres ∧ Compound.Readable dialect schema body
  | .wrapped body => dialect = .sqlite ∧ Compound.Readable dialect schema body

/-- The members are written as the dialect writes them, and output columns order the rows. -/
def Compound.Readable (dialect : Dialect) (schema : Schema) : Compound → Prop
  | .mk first rest orderBy _ =>
      Member.Readable dialect schema first ∧ Compound.RestReadable dialect schema rest ∧
        (∀ key ∈ orderBy, ∃ name, key.term = .output name) ∧
        (rest.length = 1 ∨ (dialect = .sqlite ∧ rest ≠ []))

def Compound.RestReadable (dialect : Dialect) (schema : Schema) : List (SetOperator × Member) → Prop
  | [] => True
  | (_, member) :: rest => Member.Readable dialect schema member ∧ Compound.RestReadable dialect schema rest

end

/-- How a member begins. -/
def Reader.opens (dialect : Dialect) (lexeme : Lexeme) : Bool :=
  match dialect with
  | .sqlite => lexeme.isWord "SELECT"
  | .postgres => lexeme = .mark '('

/-- The lexemes of a member that is read as a tree. -/
structure Reader.IsMember (dialect : Dialect) (lexemes : List Lexeme) (tree : SetTree Fragment) : Prop where
  passes : Passes isKeyword lexemes
  begins : lexemes.head?.any (opens dialect) = true
  read : ∃ depth < lexemes.length, ∃ found, found.Alike (IsWritten dialect) tree ∧
    ∀ levels, depth ≤ levels → member? dialect (compound? dialect levels) lexemes = some found

/-- The lexemes of a compound that is read as a tree. -/
structure Reader.IsCompound (dialect : Dialect) (lexemes : List Lexeme) (tree : SetTree Fragment) : Prop where
  balanced : Balanced lexemes
  begins : lexemes.head?.any (opens dialect) = true
  read : ∃ depth ≤ lexemes.length, ∃ found, found.Alike (IsWritten dialect) tree ∧
    ∀ levels, depth ≤ levels → compound? dialect levels lexemes = some found

/-- The lexemes of members after operators. -/
structure Reader.AreMembers (dialect : Dialect) (members : List (SetOperator × List Lexeme))
    (trees : List (SetOperator × SetTree Fragment)) : Prop where
  each : ∀ entry ∈ members, Passes isKeyword entry.2 ∧ Follows entry.2
  read : ∃ depth ≤ ((members.map operatorEntry).flatMap fun entry => entry.1 :: entry.2).length,
    ∃ founds, List.Forall₂ (fun found tree => found.1 = tree.1 ∧
      found.2.Alike (IsWritten dialect) tree.2) founds trees ∧
    ∀ levels, depth ≤ levels → members? dialect (compound? dialect levels) members = some founds

namespace Reader

variable {dialect : Dialect} {lexemes : List Lexeme} {tree : SetTree Fragment}

theorem isMember_bareSelect (written : IsWritten .sqlite lexemes fragment)
    (passes : Passes isKeyword lexemes) (begins : lexemes.head?.any (isWord "SELECT") = true)
    (bare : wrapped? lexemes = none) : IsMember .sqlite lexemes (.leaf fragment) := by
  refine ⟨passes, begins, 0, ?_, .leaf lexemes, .leaf written, ?_⟩
  · cases lexemes with
    | nil => simp at begins
    | cons first rest => simp
  · intro levels _
    simp [member?, bare, begins]

theorem isMember_enclosed (written : IsWritten .postgres lexemes fragment)
    (balanced : Balanced lexemes) (begins : lexemes.head? ≠ some (.mark '(')) :
    IsMember .postgres (.mark '(' :: (lexemes ++ [.mark ')'])) (.leaf fragment) := by
  refine ⟨passes_enclosed balanced rfl, rfl, 0, by simp, .leaf lexemes, .leaf written, ?_⟩
  intro levels _
  simp [member?, enclosed?_eq balanced, begins]

theorem IsCompound.grouped (compound : IsCompound .postgres lexemes tree) :
    IsMember .postgres (.mark '(' :: (lexemes ++ [.mark ')'])) tree := by
  obtain ⟨depth, bounded, found, alike, read⟩ := compound.read
  refine ⟨passes_enclosed compound.balanced rfl, rfl, depth, ?_, found, alike, ?_⟩
  · simp only [length_cons, length_append]
    omega
  · have begins : lexemes.head? = some (.mark '(') := by
      simpa [opens, Option.any_eq_true] using compound.begins
    intro levels deep
    simp [member?, enclosed?_eq compound.balanced, begins, read levels deep]

/-- The lexemes of `SELECT * FROM` and something in parentheses. -/
def wrap (lexemes : List Lexeme) : List Lexeme :=
  .word "SELECT".toList :: .mark '*' :: .word "FROM".toList :: .mark '(' :: (lexemes ++ [.mark ')'])

theorem IsCompound.wrapped (compound : IsCompound .sqlite lexemes tree) : IsMember .sqlite (wrap lexemes) tree := by
  obtain ⟨depth, bounded, found, alike, read⟩ := compound.read
  have inside : wrapped? (wrap lexemes) = some lexemes := enclosed?_eq compound.balanced
  refine ⟨?_, rfl, depth, ?_, found, alike, ?_⟩
  · exact (((passes_enclosed compound.balanced rfl).cons rfl rfl).cons rfl rfl).cons rfl rfl
  · simp only [wrap, length_cons, length_append]
    omega
  · intro levels deep
    simp [member?, inside, read levels deep]

theorem IsMember.follows (isMember : IsMember dialect lexemes tree) : Follows lexemes := by
  have begins := isMember.begins
  cases lexemes with
  | nil => rfl
  | cons first rest =>
    change opens dialect first = true at begins
    change isWord "ALL" first = false
    cases dialect with
    | sqlite =>
      cases first with
      | word text =>
        have same : text.map Char.toUpper = "SELECT".toList := by simpa [opens, isWord] using begins
        rw [isWord, same]
        rfl
      | quoted _ | literal _ | mark _ => rfl
    | postgres =>
      obtain rfl : first = .mark '(' := by simpa [opens] using begins
      rfl

theorem areMembers_nil : AreMembers dialect [] [] := ⟨by simp, 0, Nat.le_refl _, [], .nil, fun _ _ => rfl⟩

variable {members : List (SetOperator × List Lexeme)}
variable {trees : List (SetOperator × SetTree Fragment)}

theorem AreMembers.cons {op : SetOperator} (isMember : IsMember dialect lexemes tree)
    (areMembers : AreMembers dialect members trees) :
    AreMembers dialect ((op, lexemes) :: members) ((op, tree) :: trees) := by
  obtain ⟨depth, bounded, found, alike, read⟩ := isMember.read
  obtain ⟨others, othersBounded, founds, alikes, reads⟩ := areMembers.read
  refine ⟨?_, max depth others, ?_, (op, found) :: founds, .cons ⟨rfl, alike⟩ alikes, ?_⟩
  · exact forall_mem_cons.mpr ⟨⟨isMember.passes, isMember.follows⟩, areMembers.each⟩
  · simp only [map_cons, flatMap_cons, operatorEntry, length_append, length_cons] at othersBounded ⊢
    omega
  · intro levels deep
    simp [members?, read levels (by omega), reads levels (by omega)]

theorem isCompound_chain {head : List Lexeme} {first : SetTree Fragment}
    {last : List (Lexeme × List Lexeme)} {clauses : Clauses}
    (isMember : IsMember dialect head first) (areMembers : AreMembers dialect members trees)
    (cut : ∀ entry ∈ last, isKeyword entry.1 = true ∧ Passes isKeyword entry.2)
    (ended : operators last = ([], last)) (clausesRead : clauses? dialect last = some clauses)
    (joinable : trees.length = 1 ∨ (dialect = .sqlite ∧ trees ≠ [])) :
    IsCompound dialect (head ++ (members.map operatorEntry ++ last).flatMap fun entry => entry.1 :: entry.2)
      (first.chain trees clauses) := by
  obtain ⟨depth, bounded, found, alike, read⟩ := isMember.read
  obtain ⟨others, othersBounded, founds, alikes, reads⟩ := areMembers.read
  refine ⟨?_, ?_, max depth others + 1, ?_, found.chain founds clauses, alike.chain alikes clauses, ?_⟩
  · have members := operatorEntry_cut fun entry mem => (areMembers.each entry mem).1
    exact isMember.passes.balanced.append (balanced_joined (forall_mem_append.mpr ⟨members, cut⟩))
  · have begins := isMember.begins
    cases head with
    | nil => simp at begins
    | cons lexeme rest => exact begins
  · rw [flatMap_append, length_append, length_append]
    omega
  · intro levels deep
    obtain ⟨more, rfl⟩ : ∃ more, levels = more + 1 := ⟨levels - 1, by omega⟩
    have sameLength : founds.length = trees.length := alikes.length_eq
    have foundJoinable : founds.length = 1 ∨ (dialect = .sqlite ∧ founds ≠ []) := by
      rw [sameLength, ← length_pos_iff, sameLength, length_pos_iff]
      exact joinable
    exact compound?_joined isMember.passes areMembers.each cut ended (read more (by omega))
      (reads more (by omega)) clausesRead foundJoinable

end Reader

section Print

variable {dialect : Dialect} {schema : Schema}

theorem Statement.begins_print (statement : Statement) (index : Nat) :
    ∃ first rest, textFrom dialect index (statement.print dialect schema).pieces = first :: rest ∧
      Identifier.isRest first = true := by
  obtain ⟨isRecursive, rowSets, select⟩ := statement
  rw [Statement.print, Statement.fold_mk]
  cases rowSets with
  | nil => exact ⟨'S', _, rfl, rfl⟩
  | cons first rest =>
    rw [Level.print, Level.map, map_cons, printRowSets]
    · cases isRecursive with
      | false =>
        simp only [pieces_append, ofString, append_assoc, Bool.false_eq_true, if_false]
        exact ⟨'W', _, rfl, rfl⟩
      | true =>
        simp only [pieces_append, ofString, append_assoc, if_true]
        exact ⟨'W', _, rfl, rfl⟩
    · simp

theorem writes_parenthesized {index : Nat} (writes : fragment.Writes dialect index lexemes) :
    fragment.parenthesized.Writes dialect index (.mark '(' :: (lexemes ++ [.mark ')'])) :=
  writes_concat [.glue "(", .hole fragment lexemes, .glue ")"] rfl rfl ⟨writes, trivial⟩

theorem Compound.length_restTrees (rest : List (SetOperator × Member)) :
    (restTrees dialect schema rest).length = rest.length := by
  induction rest with
  | nil =>
    rw [restTrees]
    rfl
  | cons entry others ih => rw [restTrees, length_cons, length_cons, ih]

mutual

theorem Member.reads : (member : Member) → member.Readable dialect schema → (index : Nat) →
    ∃ lexemes, (member.print dialect schema).Writes dialect index lexemes ∧
      IsMember dialect lexemes (member.tree dialect schema)
  | .select body, readable, index => by
    rw [Member.Readable] at readable
    obtain ⟨rfl, isBare⟩ := readable
    obtain ⟨lexemes, writes, passes, begins, bare⟩ := isBare index
    refine ⟨lexemes, ?_, ?_⟩
    · rw [Member.print]
      exact writes
    · rw [Member.tree]
      exact isMember_bareSelect ⟨index, writes⟩ passes begins bare
  | .statement body, readable, index => by
    rw [Member.Readable] at readable
    obtain ⟨rfl, lexes⟩ := readable
    obtain ⟨lexemes, writes, balanced⟩ := lexes.exists_writes index
    obtain ⟨first, rest, begins, isRest⟩ := body.begins_print index
    obtain ⟨word, head⟩ := writes.exists_word begins isRest
    refine ⟨.mark '(' :: (lexemes ++ [.mark ')']), ?_, ?_⟩
    · rw [Member.print]
      exact writes_parenthesized writes
    · rw [Member.tree]
      exact isMember_enclosed ⟨index, writes⟩ balanced (by simp [head])
  | .grouped body, readable, index => by
    rw [Member.Readable] at readable
    obtain ⟨lexemes, writes, isCompound⟩ := Compound.reads body readable.2 index
    obtain ⟨rfl, -⟩ := readable
    refine ⟨.mark '(' :: (lexemes ++ [.mark ')']), ?_, ?_⟩
    · rw [Member.print]
      exact writes_parenthesized writes
    · rw [Member.tree]
      exact isCompound.grouped
  | .wrapped body, readable, index => by
    rw [Member.Readable] at readable
    obtain ⟨lexemes, writes, isCompound⟩ := Compound.reads body readable.2 index
    obtain ⟨rfl, -⟩ := readable
    refine ⟨wrap lexemes, ?_, ?_⟩
    · rw [Member.print]
      exact writes_concat [.glue "SELECT * FROM ", .hole _ _] rfl (by simp [Phrase.lexemes]; rfl)
        ⟨writes_parenthesized writes, trivial⟩
    · rw [Member.tree]
      exact isCompound.wrapped

theorem Compound.reads : (compound : Compound) → compound.Readable dialect schema →
    (index : Nat) → ∃ lexemes, (compound.print dialect schema).Writes dialect index lexemes ∧
      IsCompound dialect lexemes (compound.tree dialect schema)
  | .mk first rest orderBy bounds, readable, index => by
    rw [Compound.Readable] at readable
    obtain ⟨firstReadable, restReadable, outputs, joinable⟩ := readable
    obtain ⟨head, writes, isMember⟩ := Member.reads first firstReadable index
    obtain ⟨members, adds, areMembers⟩ := Compound.restReads rest restReadable
      (index + (first.print dialect schema).slots.length)
    refine ⟨head ++ (members.map operatorEntry ++
      clauseEntries dialect (orderBy.map SortKey.outputOrder) bounds).flatMap fun entry => entry.1 :: entry.2, ?_, ?_⟩
    · rw [print]
      exact writes_concat [.hole _ head, .tail _ _, .tail _ _, .tail _ _] rfl
        (by simp [Phrase.lexemes, clauseEntries])
        ⟨writes, adds, adds_printOrderBy outputs _, adds_printBounds bounds _, trivial⟩
    · rw [Compound.tree]
      refine isCompound_chain isMember areMembers (clauseEntries_cut _ bounds)
        (operators_clauseEntries _ bounds) (clauses?_clauseEntries _ bounds) ?_
      rw [length_restTrees, ← length_pos_iff, length_restTrees, length_pos_iff]
      exact joinable

theorem Compound.restReads : (rest : List (SetOperator × Member)) →
    Compound.RestReadable dialect schema rest → (index : Nat) →
    ∃ members, (printRest dialect schema rest).Adds dialect index
        ((members.map operatorEntry).flatMap fun entry => entry.1 :: entry.2) ∧
      AreMembers dialect members (Compound.restTrees dialect schema rest)
  | [], _, index => by
    refine ⟨[], ?_, ?_⟩
    · rw [printRest]
      exact adds_empty dialect index
    · rw [Compound.restTrees]
      exact areMembers_nil
  | (op, member) :: rest, readable, index => by
    rw [Compound.RestReadable] at readable
    obtain ⟨lexemes, writes, isMember⟩ := Member.reads member readable.1 index
    obtain ⟨members, adds, areMembers⟩ := Compound.restReads rest readable.2
      (index + (member.print dialect schema).slots.length)
    refine ⟨(op, lexemes) :: members, ?_, ?_⟩
    · rw [printRest]
      have fit : fits false [.glue "\n", .glue op.keyword, .glue "\n", .hole empty [], .tail empty []] = true := by
        cases op <;> rfl
      refine adds_concat [.glue "\n", .glue op.keyword, .glue "\n", .hole _ lexemes,
        .tail _ _] fit ?_ ⟨writes, adds, trivial⟩
      have keyword : (glue op.keyword).lexemes = op.lexeme :: op.suffix := by
        cases op <;> rfl
      change (glue op.keyword).lexemes ++ (lexemes ++ (_ ++ [])) = _
      rw [keyword]
      simp [operatorEntry, Phrase.lexemes]
    · rw [Compound.restTrees]
      exact areMembers.cons isMember

end

/-- An entry of a WITH list, as lexemes. -/
def entryLexemes (entry : String × List Lexeme) : List Lexeme :=
  .word entry.1.toList :: .word "AS".toList :: .mark '(' :: (entry.2 ++ [.mark ')'])

/-- The text of a row set is read as an entry of a WITH list under a name that is no keyword. -/
def RowSet.IsEntry (dialect : Dialect) (schema : Schema) (rowSet : RowSet Fragment) : Prop :=
  '_' ∈ rowSet.name.toList ∧ ∀ index, ∃ inside, Balanced inside ∧
    (rowSet.print dialect schema).Writes dialect index (entryLexemes (rowSet.name, inside))

theorem rowSet?_entryLexemes (balanced : Balanced entry.2) : rowSet? (entryLexemes entry) = some entry := by
  obtain ⟨name, inside⟩ := entry
  change (enclosed? (.mark '(' :: (inside ++ [.mark ')']))).map (String.ofList name.toList, ·) = _
  rw [enclosed?_eq balanced, String.ofList_toList]
  rfl

theorem passes_entryLexemes {isCut : Lexeme → Bool} (balanced : Balanced entry.2)
    (name : isCut (.word entry.1.toList) = false) (keyword : isCut (.word "AS".toList) = false)
    (opening : isCut (.mark '(') = false) : Passes isCut (entryLexemes entry) :=
  ((passes_enclosed balanced opening).cons keyword rfl).cons name rfl

/-- The entries of a WITH list, and a compound after it, are read as such. -/
theorem statement?_with {entries : List (String × List Lexeme)} (someEntry : entries ≠ [])
    (each : ∀ entry ∈ entries, Balanced entry.2 ∧ '_' ∈ entry.1.toList) {tree : SetTree Fragment}
    (isCompound : IsCompound .sqlite lexemes tree) :
    ∃ found, found.Alike (IsWritten .sqlite) tree ∧ statement? .sqlite
          (.word "WITH".toList :: (commaJoined (entries.map entryLexemes) ++ lexemes)) =
        some (entries, found) := by
  obtain ⟨depth, bounded, found, alike, read⟩ := isCompound.read
  refine ⟨found, alike, ?_⟩
  have list : Passes (isWord "SELECT") (commaJoined (entries.map entryLexemes)) := by
    refine passes_commaJoined rfl fun lexemes member => ?_
    obtain ⟨entry, mem, rfl⟩ := mem_map.mp member
    obtain ⟨balanced, separated⟩ := each entry mem
    exact passes_entryLexemes balanced (isWord_eq_false separated (by decide)) rfl rfl
  have notComma : ∀ lexemes ∈ entries.map entryLexemes, Passes isComma lexemes := by
    intro lexemes member
    obtain ⟨entry, mem, rfl⟩ := mem_map.mp member
    exact passes_entryLexemes (each entry mem).1 rfl rfl rfl
  have separated : commaSeparated (commaJoined (entries.map entryLexemes)) = entries.map entryLexemes := by
    obtain ⟨first, rest, rfl⟩ := exists_cons_of_ne_nil someEntry
    exact commaSeparated_commaJoined notComma
  have entriesRead : (entries.map entryLexemes).mapM rowSet? = some entries :=
    mapM_map_eq_some_iff.mpr fun entry member => rowSet?_entryLexemes (each entry member).1
  have begins := isCompound.begins
  obtain ⟨select, others, rfl⟩ : ∃ select others, lexemes = select :: others := by
    cases lexemes with
    | nil => simp at begins
    | cons select others => exact ⟨select, others, rfl⟩
  have cut : (spans (isWord "SELECT") 0 (commaJoined (entries.map entryLexemes) ++ select :: others)).1 =
        commaJoined (entries.map entryLexemes) := by
    rw [list.spans_append, spans, if_pos ⟨rfl, begins⟩]
    exact append_nil _
  have isWith : isWord "WITH" (.word "WITH".toList) = true := rfl
  rw [statement?, if_pos isWith]
  simp only [cut, drop_left, separated, entriesRead, read _ bounded]
  rfl

theorem exists_writes_printRowSets {rowSets : List (RowSet Fragment)} (someRowSet : rowSets ≠ [])
    (each : ∀ rowSet ∈ rowSets, rowSet.IsEntry .sqlite schema) {body : Fragment}
    {written : List Lexeme → Prop}
    (bodyWrites : ∀ index, ∃ lexemes, body.Writes .sqlite index lexemes ∧ written lexemes) :
    ∃ (entries : List (String × List Lexeme)) (lexemes : List Lexeme), entries.map Prod.fst = rowSets.map RowSet.name ∧
      (∀ entry ∈ entries, Balanced entry.2 ∧ '_' ∈ entry.1.toList) ∧ written lexemes ∧
      (printRowSets .sqlite schema false rowSets ++ body).Writes .sqlite 1
        (.word "WITH".toList :: (commaJoined (entries.map entryLexemes) ++ lexemes)) := by
  have rowSetWrites : ∀ rowSet ∈ rowSets, ∀ index, ∃ entry : String × List Lexeme,
      (rowSet.print .sqlite schema).Writes .sqlite index (entryLexemes entry) ∧
        entry.1 = rowSet.name ∧ Balanced entry.2 ∧ '_' ∈ entry.1.toList := by
    intro rowSet mem index
    obtain ⟨separated, writes⟩ := each rowSet mem
    obtain ⟨inside, balanced, entry⟩ := writes index
    exact ⟨(rowSet.name, inside), entry, rfl, balanced, separated⟩
  obtain ⟨entries, founds, list⟩ := exists_writes_joinedBy ",\n" (.mark ',') rfl rfl rowSetWrites 1
  rw [joinedBy_comma] at list
  obtain ⟨sound, names⟩ := (forall₂_and_left _ _).mp (founds.flip.imp fun _ _ found => ⟨found.2, found.1⟩)
  obtain ⟨lexemes, bodyWritten, property⟩ := bodyWrites
    (1 + (join ",\n" (rowSets.map (RowSet.print .sqlite schema))).slots.length)
  refine ⟨entries, lexemes, ?_, sound, property, ?_⟩
  · rw [← forall₂_eq_eq_eq, forall₂_map_left_iff, forall₂_map_right_iff]
    exact names
  · obtain ⟨first, rest, rfl⟩ := exists_cons_of_ne_nil someRowSet
    exact writes_concat
      [.glue (if false then "WITH RECURSIVE " else "WITH "), .hole _ _, .glue "\n", .hole body _] rfl
      (by simp [Phrase.lexemes]; rfl) ⟨list, bodyWritten, trivial⟩

theorem CompoundStatement.reads_hoisted (statement : CompoundStatement) (someRowSet : statement.rowSets ≠ [])
    (each : ∀ rowSet ∈ statement.rowSets, (rowSet.map (Statement.print .sqlite schema)).IsEntry .sqlite schema)
    (readable : statement.body.Readable .sqlite schema) :
    ∃ (entries : List (String × List Lexeme)) (found : SetTree (List Lexeme)),
      entries.map Prod.fst = statement.rowSets.map RowSet.name ∧
      found.Alike (IsWritten .sqlite) (statement.body.tree .sqlite schema) ∧
      text? .sqlite (textFrom .sqlite 1 (statement.print .sqlite schema).pieces) = some (entries, found) := by
  have printed : ∀ rowSet ∈ statement.rowSets.map (RowSet.map (Statement.print .sqlite schema)),
      rowSet.IsEntry .sqlite schema := forall_mem_map.mpr each
  obtain ⟨entries, lexemes, names, sound, isCompound, writes⟩ :=
    exists_writes_printRowSets (by simpa using someRowSet) printed (statement.body.reads readable)
  have someEntry : entries ≠ [] := by
    rintro rfl
    exact someRowSet (by simpa using names.symm)
  obtain ⟨found, alike, read⟩ := statement?_with someEntry sound isCompound
  refine ⟨entries, found, names.trans (map_map ..), alike, ?_⟩
  rw [text?, CompoundStatement.print, writes.lexemes_eq]
  exact read

/-- A compound whose members stand in parentheses is read without a WITH list. -/
theorem CompoundStatement.reads_enclosed (statement : CompoundStatement)
    (noRowSets : statement.rowSets = []) (readable : statement.body.Readable .postgres schema) :
    ∃ found, found.Alike (IsWritten .postgres) (statement.body.tree .postgres schema) ∧
      text? .postgres (textFrom .postgres 1 (statement.print .postgres schema).pieces) = some ([], found) := by
  obtain ⟨rowSets, body⟩ := statement
  obtain rfl : rowSets = [] := noRowSets
  obtain ⟨lexemes, writes, isCompound⟩ := body.reads readable 1
  obtain ⟨depth, bounded, found, alike, read⟩ := isCompound.read
  refine ⟨found, alike, ?_⟩
  have printed : (CompoundStatement.print .postgres schema ⟨[], body⟩).Writes .postgres 1 lexemes := writes
  rw [text?, printed.lexemes_eq, Option.bind_some]
  have begins := isCompound.begins
  cases lexemes with
  | nil => simp at begins
  | cons first rest =>
    obtain rfl : first = .mark '(' := by simpa [opens] using begins
    have noWith : ¬isWord "WITH" (.mark '(') = true := Bool.false_ne_true
    have readWhole : compound? .postgres (rest.length + 1) (.mark '(' :: rest) = some found := read _ bounded
    rw [statement?, if_neg noWith, readWhole]
    rfl

end Print

end GraphSql
