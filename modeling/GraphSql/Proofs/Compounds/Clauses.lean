import GraphSql.Proofs.Compounds.Reader

namespace GraphSql

open Dialect Fragment Lexeme Nat Phrase Reader

def Term.outputName : Term → String
  | .output name => name
  | _ => ""

def SortKey.outputOrder (key : SortKey) : OutputOrder := ⟨key.term.outputName, key.direction, key.nulls⟩

/-- A bound as the engines take it. -/
def boundValue (bound : UInt64) : Nat := min bound.toNat Dialect.greatestBound

/-- The clauses that keys and bounds stand for. -/
def Clauses.ofKeys (keys : List SortKey) (limit offset : Option UInt64) : Clauses :=
  ⟨keys.map SortKey.outputOrder, limit.map boundValue, offset.map boundValue⟩

section Join

variable {dialect : Dialect} {α β : Type}

/-- Entries with a lexeme between them. -/
def Lexeme.joinedBy (lexeme : Lexeme) : List (List Lexeme) → List Lexeme
  | [] => []
  | first :: rest => first ++ rest.flatMap (lexeme :: ·)

theorem exists_writes_joinedBy (separator : String) (lexeme : Lexeme) {print : α → Fragment}
    {write : β → List Lexeme} {holds : α → β → Prop} {items : List α}
    (fit : fits true [.hole empty [], .glue separator, .hole empty []] = true)
    (separates : (glue separator).lexemes = [lexeme])
    (each : ∀ item ∈ items, ∀ index, ∃ entry, (print item).Writes dialect index (write entry) ∧ holds item entry)
    (index : Nat) :
    ∃ entries, List.Forall₂ holds items entries ∧ (join separator (items.map print)).Writes dialect index
        (lexeme.joinedBy (entries.map write)) := by
  induction items generalizing index with
  | nil => exact ⟨[], .nil, (adds_empty dialect index).writes⟩
  | cons first rest ih =>
    obtain ⟨firstEach, restEach⟩ := List.forall_mem_cons.mp each
    obtain ⟨entry, writes, found⟩ := firstEach index
    cases rest with
    | nil =>
      refine ⟨[entry], .cons found .nil, ?_⟩
      have single : lexeme.joinedBy ([entry].map write) = write entry := List.append_nil _
      rw [single]
      exact writes
    | cons second others =>
      obtain ⟨entries, founds, further⟩ := ih restEach (index + (print first).slots.length)
      refine ⟨entry :: entries, .cons found founds, ?_⟩
      have joined : write entry ++ ((glue separator).lexemes ++ (lexeme.joinedBy (entries.map write) ++ [])) =
            lexeme.joinedBy ((entry :: entries).map write) := by
        rw [separates, List.append_nil]
        cases founds
        rfl
      exact writes_concat [.hole (print first) (write entry), .glue separator, .hole (join separator _) _]
        fit joined ⟨writes, further, trivial⟩

theorem joinedBy_comma (entries : List (List Lexeme)) : (Lexeme.mark ',').joinedBy entries = commaJoined entries := by
  cases entries <;> rfl

theorem adds_blank (index : Nat) : (ofString "").Adds dialect index [] :=
  fun mode outside => ⟨mode, outside, [], rfl, (List.append_nil _).symm⟩

end Join

section Order

variable {dialect : Dialect}

def SortDirection.lexeme : SortDirection → Lexeme
  | .ascending => .word "ASC".toList
  | .descending => .word "DESC".toList

/-- The lexemes that place nulls, if an order does so. -/
def NullsOrder.lexemes : Option NullsOrder → List Lexeme
  | none => []
  | some .first => [.word "NULLS".toList, .word "FIRST".toList]
  | some .last => [.word "NULLS".toList, .word "LAST".toList]

def OutputOrder.lexemes (order : OutputOrder) : List Lexeme :=
  .quoted order.name.toList :: order.direction.lexeme :: NullsOrder.lexemes order.nulls

theorem OutputOrder.outputOrder?_lexemes (order : OutputOrder) : outputOrder? order.lexemes = some order := by
  obtain ⟨name, direction, nulls⟩ := order
  have directionRead : direction? direction.lexeme = some direction := by cases direction <;> rfl
  have nullsRead : nulls? (NullsOrder.lexemes nulls) = some nulls := by rcases nulls with _ | _ | _ <;> rfl
  simp [lexemes, outputOrder?, directionRead, nullsRead, String.ofList_toList]

theorem OutputOrder.passes_lexemes (order : OutputOrder) :
    Passes isComma order.lexemes ∧ Passes isKeyword order.lexemes := by
  obtain ⟨name, direction, nulls⟩ := order
  have nullsPass : Passes isComma (NullsOrder.lexemes nulls) ∧ Passes isKeyword (NullsOrder.lexemes nulls) := by
    rcases nulls with _ | _ | _
    · exact ⟨passes_nil, passes_nil⟩
    · exact ⟨(passes_nil.cons rfl rfl).cons rfl rfl, (passes_nil.cons rfl rfl).cons rfl rfl⟩
    · exact ⟨(passes_nil.cons rfl rfl).cons rfl rfl, (passes_nil.cons rfl rfl).cons rfl rfl⟩
  cases direction with
  | ascending | descending =>
    exact ⟨(nullsPass.1.cons rfl rfl).cons rfl rfl, (nullsPass.2.cons rfl rfl).cons rfl rfl⟩

theorem SortKey.writes_print {key : SortKey} {name : String} (output : key.term = .output name)
    (index : Nat) : (key.print dialect).Writes dialect index key.outputOrder.lexemes := by
  obtain ⟨term, direction, nulls⟩ := key
  obtain rfl : term = .output name := output
  have quoted : (ofString (Text.quoteName name)).Writes dialect index [.quoted name.toList] := writes_quoteName name
  cases direction with
  | ascending =>
    rcases nulls with _ | _ | _
    · exact writes_concat [.hole _ _, .glue " ASC", .tail "" []] rfl rfl ⟨quoted, adds_blank _, trivial⟩
    · exact writes_concat [.hole _ _, .glue " ASC", .glue " NULLS FIRST"] rfl rfl ⟨quoted, trivial⟩
    · exact writes_concat [.hole _ _, .glue " ASC", .glue " NULLS LAST"] rfl rfl ⟨quoted, trivial⟩
  | descending =>
    rcases nulls with _ | _ | _
    · exact writes_concat [.hole _ _, .glue " DESC", .tail "" []] rfl rfl ⟨quoted, adds_blank _, trivial⟩
    · exact writes_concat [.hole _ _, .glue " DESC", .glue " NULLS FIRST"] rfl rfl ⟨quoted, trivial⟩
    · exact writes_concat [.hole _ _, .glue " DESC", .glue " NULLS LAST"] rfl rfl ⟨quoted, trivial⟩

/-- The clause that orders rows, as it is cut. -/
def orderEntries : List OutputOrder → List (Lexeme × List Lexeme)
  | [] => []
  | first :: rest =>
      [(.word "ORDER".toList, .word "BY".toList :: commaJoined ((first :: rest).map OutputOrder.lexemes))]

theorem adds_printOrderBy {keys : List SortKey}
    (outputs : ∀ key ∈ keys, ∃ name, key.term = .output name) (index : Nat) :
    (printOrderBy dialect "\n" keys).Adds dialect index
      ((orderEntries (keys.map SortKey.outputOrder)).flatMap fun entry => entry.1 :: entry.2) := by
  cases keys with
  | nil => exact adds_empty dialect index
  | cons first rest =>
    have each : ∀ key ∈ first :: rest, ∀ index, ∃ order : OutputOrder,
        (key.print dialect).Writes dialect index order.lexemes ∧ key.outputOrder = order := by
      intro key mem index
      obtain ⟨name, output⟩ := outputs key mem
      exact ⟨_, key.writes_print output index, rfl⟩
    obtain ⟨orders, founds, writes⟩ := exists_writes_joinedBy ", " (.mark ',') rfl rfl each index
    have same : (first :: rest).map SortKey.outputOrder = orders := by
      rw [← List.forall₂_eq_eq_eq]
      exact List.forall₂_map_left_iff.mpr founds
    rw [← same, joinedBy_comma] at writes
    exact adds_concat [.glue "\n", .glue "ORDER BY ", .hole (join ", " _) _] rfl rfl ⟨writes, trivial⟩

end Order

section Bounds

variable {dialect : Dialect}

/-- The clause that limits rows, as it is cut. -/
def limitEntries : Dialect → Option UInt64 → List (Lexeme × List Lexeme)
  | _, some limit => [(.word "LIMIT".toList, [.word (Nat.toDigits 10 (boundValue limit))])]
  | .sqlite, none => [(.word "LIMIT".toList, [.mark '-', .word "1".toList])]
  | .postgres, none => []

def offsetEntries : Option UInt64 → List (Lexeme × List Lexeme)
  | some offset => [(.word "OFFSET".toList, [.word (Nat.toDigits 10 (boundValue offset))])]
  | none => []

def boundEntries (dialect : Dialect) (bounds : Bounds) : List (Lexeme × List Lexeme) :=
  limitEntries dialect bounds.limit ++ offsetEntries bounds.offset

theorem writes_boundText (dialect : Dialect) (bound : UInt64) (index : Nat) :
    (ofString (boundText bound)).Writes dialect index [.word (toDigits 10 (boundValue bound))] :=
  writes_toString _

/-- Only the text counts, not the division into pieces. -/
theorem Fragment.Writes.of_eq_text {printed fragment : Fragment} {index : Nat}
    {lexemes : List Lexeme} (writes : printed.Writes dialect index lexemes)
    (text : textFrom dialect index fragment.pieces = textFrom dialect index printed.pieces) :
    fragment.Writes dialect index lexemes := by
  intro mode plain
  rw [text]
  exact writes mode plain

theorem writes_limitOffset (bounds : Bounds) (index : Nat) :
    (ofString (dialect.limitOffset bounds.limit bounds.offset)).Writes dialect index
      ((boundEntries dialect bounds).flatMap fun entry => entry.1 :: entry.2) := by
  obtain ⟨limit, offset⟩ := bounds
  have one : ∀ (opening : String) (bound : UInt64), fits true [.glue opening, .hole (boundText bound) []] = true →
      (ofString (opening ++ boundText bound)).Writes dialect index
        ((glue opening).lexemes ++ [.word (toDigits 10 (boundValue bound))]) := by
    intro opening bound fit
    have parts : (concat [.glue opening, .hole (boundText bound)
        [.word (toDigits 10 (boundValue bound))]]).Writes dialect index _ :=
      writes_concat _ fit rfl ⟨writes_boundText dialect bound index, trivial⟩
    exact parts.of_eq_text (by simp [concat, Phrase.fragment, pieces_append, empty, ofString, textFrom])
  have two : ∀ limit offset : UInt64, (ofString ("LIMIT " ++ boundText limit ++ " OFFSET " ++
        boundText offset)).Writes dialect index
          [.word "LIMIT".toList, .word (toDigits 10 (boundValue limit)), .word "OFFSET".toList,
            .word (toDigits 10 (boundValue offset))] := by
    intro limit offset
    have parts := writes_concat [.glue "LIMIT ", .hole (boundText limit) _, .glue " OFFSET ",
        .hole (boundText offset) _] rfl rfl
      ⟨writes_boundText dialect limit index, writes_boundText dialect offset index, trivial⟩
    exact parts.of_eq_text (by simp [concat, Phrase.fragment, pieces_append, empty, ofString, textFrom])
  cases limit with
  | none =>
    cases dialect with
    | sqlite =>
      cases offset with
      | none => exact writes_concat [.glue "LIMIT -1"] rfl rfl trivial
      | some offset => exact one "LIMIT -1 OFFSET " offset rfl
    | postgres =>
      cases offset with
      | none => exact (adds_blank index).writes
      | some offset => exact one "OFFSET " offset rfl
  | some limit =>
    cases offset with
    | none => cases dialect <;> exact one "LIMIT " limit rfl
    | some offset => cases dialect <;> exact two limit offset

/-- The clauses at the end of a compound, as they are cut. -/
def clauseEntries (dialect : Dialect) (order : List OutputOrder) (bounds : Option Bounds) :
    List (Lexeme × List Lexeme) :=
  orderEntries order ++ (bounds.map (boundEntries dialect)).getD []

theorem adds_printBounds (bounds : Option Bounds) (index : Nat) : (printBounds dialect "\n" bounds).Adds dialect index
      (((bounds.map (boundEntries dialect)).getD []).flatMap fun entry => entry.1 :: entry.2) := by
  cases bounds with
  | none => exact adds_empty dialect index
  | some bounds =>
    exact adds_concat [.glue "\n", .hole (bounds.print dialect) _] rfl (List.append_nil _)
      ⟨writes_limitOffset bounds index, trivial⟩

theorem number?_toDigits (value : Nat) : number? [.word (toDigits 10 value)] = some value := by
  have digits : (toDigits 10 value).all Char.isDigit = true := by
    rw [List.all_eq_true]
    exact fun _ mem => isDigit_of_mem_toDigits (by decide) (by decide) mem
  rw [number?, if_pos digits, ofDigitChars_ten_toDigits]

theorem isKeyword_toDigits (value : Nat) : isKeyword (.word (toDigits 10 value)) = false := by
  have letters : (keywords.all fun keyword => keyword.toList.all fun c => !c.isDigit) = true := rfl
  rw [isKeyword, List.any_eq_false]
  intro keyword mem
  rw [isWord_toDigits (List.all_eq_true.mp letters keyword mem)]
  exact Bool.false_ne_true

/-- An order without entries of its own leaves the other clauses as they are. -/
theorem clause?_skip {β : Type} {keyword : String} {read : List Lexeme → Option β} {absent : β}
    {entries : List (Lexeme × List Lexeme)}
    (other : ∀ entry ∈ entries.head?, entry.1.isWord keyword = false) :
    clause? keyword read absent entries = some (absent, entries) := by
  cases entries with
  | nil => rfl
  | cons entry rest => rw [clause?, if_neg (by simp [other entry rfl])]

theorem order?_lexemes (first : OutputOrder) (rest : List OutputOrder) :
    order? (.word "BY".toList :: commaJoined ((first :: rest).map OutputOrder.lexemes)) = some (first :: rest) := by
  have passes : ∀ entry ∈ first.lexemes :: rest.map OutputOrder.lexemes, Passes isComma entry := by
    rw [← List.map_cons]
    intro entry mem
    obtain ⟨order, -, rfl⟩ := List.mem_map.mp mem
    exact order.passes_lexemes.1
  change (commaSeparated _).mapM outputOrder? = _
  rw [List.map_cons, commaSeparated_commaJoined passes, ← List.map_cons]
  exact mapM_map_eq_some_iff.mpr fun order _ => order.outputOrder?_lexemes

theorem clause?_orderEntries (order : List OutputOrder) {others : List (Lexeme × List Lexeme)}
    (unordered : ∀ entry ∈ others.head?, entry.1.isWord "ORDER" = false) :
    clause? "ORDER" order? [] (orderEntries order ++ others) = some (order, others) := by
  cases order with
  | nil => exact clause?_skip unordered
  | cons first rest =>
    have read := order?_lexemes first rest
    change (order? (.word "BY".toList :: _)).map (·, others) = _
    rw [read]
    rfl

theorem clause?_limitEntries (dialect : Dialect) (limit offset : Option UInt64) :
    clause? "LIMIT" (limit? dialect) none (limitEntries dialect limit ++ offsetEntries offset) =
      some (limit.map boundValue, offsetEntries offset) := by
  cases limit with
  | some limit =>
    have read : limit? dialect [.word (toDigits 10 (boundValue limit))] = some (some (boundValue limit)) := by
      rw [limit?, if_neg (by simp), number?_toDigits]
      rfl
    change (limit? dialect [.word (toDigits 10 (boundValue limit))]).map _ = _
    rw [read]
    rfl
  | none =>
    cases dialect with
    | sqlite => rfl
    | postgres => cases offset <;> rfl

theorem clause?_offsetEntries (offset : Option UInt64) :
    clause? "OFFSET" (fun span => (number? span).map some) none (offsetEntries offset) =
      some (offset.map boundValue, []) := by
  cases offset with
  | none => rfl
  | some offset =>
    change ((number? [.word (toDigits 10 (boundValue offset))]).map some).map _ = _
    rw [number?_toDigits]
    rfl

variable (order : List OutputOrder) (bounds : Option Bounds)

/-- The clauses at the end of a compound are read as they were given. -/
theorem clauses?_clauseEntries : clauses? dialect (clauseEntries dialect order bounds) =
      some ⟨order, (bounds.bind Bounds.limit).map boundValue, (bounds.bind Bounds.offset).map boundValue⟩ := by
  unfold clauses? clauseEntries
  rcases bounds with _ | ⟨limit, offset⟩
  · rw [clause?_orderEntries order (by simp)]
    simp [clause?]
  · have unordered : ∀ entry ∈ (boundEntries dialect ⟨limit, offset⟩).head?, entry.1.isWord "ORDER" = false := by
      cases dialect <;> cases limit <;> cases offset <;> intro entry mem <;>
        simp [boundEntries, limitEntries, offsetEntries] at mem <;> subst mem <;> rfl
    have limited : dialect = .sqlite → offsetEntries offset = [] ∨
        offsetEntries offset ≠ limitEntries dialect limit ++ offsetEntries offset := by
      rintro rfl
      cases limit <;> cases offset <;> simp [limitEntries, offsetEntries]
    rw [Option.map_some, Option.getD_some, clause?_orderEntries order unordered]
    simp only [boundEntries, clause?_limitEntries, clause?_offsetEntries, Option.bind_eq_bind, Option.bind_some]
    exact if_pos ⟨trivial, limited⟩

theorem clauseEntries_cut : ∀ entry ∈ clauseEntries dialect order bounds,
      isKeyword entry.1 = true ∧ Passes isKeyword entry.2 := by
  have number : ∀ value, Passes isKeyword [.word (toDigits 10 value)] :=
    fun value => passes_nil.cons (isKeyword_toDigits value) rfl
  refine List.forall_mem_append.mpr ⟨?_, ?_⟩
  · cases order with
    | nil => simp [orderEntries]
    | cons first rest =>
      refine List.forall_mem_singleton.mpr ⟨rfl, Passes.cons (passes_commaJoined rfl ?_) rfl rfl⟩
      intro entry mem
      obtain ⟨order, -, rfl⟩ := List.mem_map.mp mem
      exact order.passes_lexemes.2
  · rcases bounds with _ | ⟨limit, offset⟩
    · simp
    · refine List.forall_mem_append.mpr ⟨?_, ?_⟩
      · cases limit with
        | some limit => exact List.forall_mem_singleton.mpr ⟨rfl, number _⟩
        | none =>
          cases dialect with
          | sqlite => exact List.forall_mem_singleton.mpr ⟨rfl, (passes_nil.cons rfl rfl).cons rfl rfl⟩
          | postgres => simp [limitEntries]
      · cases offset with
        | none => simp [offsetEntries]
        | some offset => exact List.forall_mem_singleton.mpr ⟨rfl, number _⟩

theorem operators_clauseEntries :
    operators (clauseEntries dialect order bounds) = ([], clauseEntries dialect order bounds) := by
  cases order with
  | cons first rest => rfl
  | nil =>
    rcases bounds with _ | ⟨limit, offset⟩
    · rfl
    · cases dialect <;> cases limit <;> cases offset <;> rfl

end Bounds

end GraphSql
