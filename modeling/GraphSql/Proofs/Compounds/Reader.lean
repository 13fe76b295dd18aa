import GraphSql.Proofs.Naming

namespace GraphSql

open List

variable {lexemes : List Lexeme}
variable {entries last : List (Lexeme × List Lexeme)} {first rest : List Lexeme}

/-- An output column that orders rows. -/
structure OutputOrder where
  name : String
  direction : SortDirection
  nulls : Option NullsOrder
  deriving DecidableEq, Repr

/-- The order and the bounds of combined rows. -/
structure Clauses where
  order : List OutputOrder := []
  limit : Option Nat := none
  offset : Option Nat := none
  deriving DecidableEq, Repr

/-- A tree of set operators with their clauses. -/
inductive SetTree (α : Type) where
  | leaf (label : α)
  | node (op : SetOperator) (left right : SetTree α) (clauses : Clauses)

namespace SetTree

variable {α β : Type}

/-- Operators of equal precedence that associate to the left; the clauses are those of the whole. -/
def chain (left : SetTree α) : List (SetOperator × SetTree α) → Clauses → SetTree α
  | [], _ => left
  | [(op, right)], clauses => .node op left right clauses
  | (op, right) :: next :: rest, clauses => chain (.node op left right {}) (next :: rest) clauses

/-- Both trees have the same operators and clauses, and their labels are related. -/
inductive Alike (related : α → β → Prop) : SetTree α → SetTree β → Prop
  | leaf {first : α} {second : β} (labels : related first second) : Alike related (.leaf first) (.leaf second)
  | node {op : SetOperator} {clauses : Clauses} {left right : SetTree α}
      {left' right' : SetTree β} (lefts : Alike related left left')
      (rights : Alike related right right') :
      Alike related (.node op left right clauses) (.node op left' right' clauses)

theorem chain_concat (left right : SetTree α) (rest : List (SetOperator × SetTree α))
    (op : SetOperator) (clauses : Clauses) :
    left.chain (rest ++ [(op, right)]) clauses = .node op (left.chain rest {}) right clauses := by
  induction rest generalizing left with
  | nil => rfl
  | cons entry others ih =>
    obtain ⟨first, second⟩ := entry
    cases others with
    | nil => rfl
    | cons next more =>
      have further := ih (.node first left second {})
      rw [cons_append] at further
      exact further

theorem Alike.chain {related : α → β → Prop} {left : SetTree α} {left' : SetTree β}
    (lefts : Alike related left left') {rest : List (SetOperator × SetTree α)}
    {rest' : List (SetOperator × SetTree β)}
    (rests : List.Forall₂ (fun first second => first.1 = second.1 ∧ Alike related first.2 second.2)
      rest rest') (clauses : Clauses) :
    Alike related (left.chain rest clauses) (left'.chain rest' clauses) := by
  induction rests generalizing left left' with
  | nil => exact lefts
  | @cons first second others others' both more ih =>
    obtain ⟨op, right⟩ := first
    obtain ⟨op', right'⟩ := second
    obtain ⟨rfl, rights⟩ := both
    cases more with
    | nil => exact .node lefts rights
    | cons next further => exact ih (.node lefts rights)

end SetTree

namespace Lexeme

/-- The depth after a lexeme. -/
def shift (depth : Nat) (lexeme : Lexeme) : Nat :=
  if lexeme = .mark '(' then depth + 1
  else if lexeme = .mark ')' then depth - 1
  else depth

/-- Cuts lexemes at those outside of parentheses that pass a test. The result is what stands before
the first of them, and each of them with what follows it. -/
def spans (isCut : Lexeme → Bool) : Nat → List Lexeme → List Lexeme × List (Lexeme × List Lexeme)
  | _, [] => ([], [])
  | depth, lexeme :: rest =>
      if depth = 0 ∧ isCut lexeme = true then
        ([], (lexeme, (spans isCut 0 rest).1) :: (spans isCut 0 rest).2)
      else
        (lexeme :: (spans isCut (shift depth lexeme) rest).1, (spans isCut (shift depth lexeme) rest).2)

/-- The lexemes close what they open, and nothing is cut inside of them, whatever follows. -/
structure Passes (isCut : Lexeme → Bool) (lexemes : List Lexeme) : Prop where
  balanced : Balanced lexemes
  spans_append : ∀ rest, spans isCut 0 (lexemes ++ rest) = (lexemes ++ (spans isCut 0 rest).1, (spans isCut 0 rest).2)

section Passes

variable {isCut : Lexeme → Bool}

theorem passes_nil : Passes isCut [] := ⟨rfl, fun _ => rfl⟩

theorem Passes.append {second : List Lexeme} (firstPasses : Passes isCut first)
    (secondPasses : Passes isCut second) : Passes isCut (first ++ second) := by
  refine ⟨firstPasses.balanced.append secondPasses.balanced, fun rest => ?_⟩
  rw [append_assoc, firstPasses.spans_append, secondPasses.spans_append, append_assoc]

theorem Balanced.cons {lexeme : Lexeme} (balanced : Balanced rest) (flat : lexeme.token? = none) :
    Balanced (lexeme :: rest) := by
  rw [Balanced, depthFrom, filterMap_cons_none flat]
  exact balanced

theorem Passes.cons {lexeme : Lexeme} (restPasses : Passes isCut rest)
    (uncut : isCut lexeme = false) (flat : lexeme.token? = none) :
    Passes isCut (lexeme :: rest) := by
  have level : shift 0 lexeme = 0 := by
    unfold token? at flat
    unfold shift
    split at flat
    · contradiction
    · split at flat
      · contradiction
      · next notOpening notClosing => rw [if_neg notOpening, if_neg notClosing]
  refine ⟨restPasses.balanced.cons flat, fun further => ?_⟩
  rw [cons_append, spans, if_neg (by simp [uncut]), level, restPasses.spans_append]
  rfl

theorem depthFrom_cons (depth : Nat) (lexeme : Lexeme) (rest : List Lexeme) : depthFrom depth (lexeme :: rest) =
      if depth = 0 ∧ lexeme = .mark ')' then none else depthFrom (shift depth lexeme) rest := by
  unfold depthFrom shift
  rw [filterMap_cons, token?]
  split_ifs <;> simp_all [Token.depthFrom]

/-- Lexemes in which nothing is cut stay whole, whatever follows. Inside of parentheses nothing is cut
anyway. -/
theorem spans_append {before after : Nat} (depths : depthFrom before lexemes = some after)
    (outer : Nat) (uncut : outer = 0 → (spans isCut before lexemes).2 = []) (rest : List Lexeme) :
    spans isCut (before + outer) (lexemes ++ rest) =
      (lexemes ++ (spans isCut (after + outer) rest).1, (spans isCut (after + outer) rest).2) := by
  induction lexemes generalizing before with
  | nil =>
    obtain rfl : before = after := Option.some_inj.mp depths
    rfl
  | cons lexeme others ih =>
    rw [depthFrom_cons] at depths
    split at depths
    · contradiction
    · next opened =>
      have whole : ¬ (before + outer = 0 ∧ isCut lexeme = true) := by
        rintro ⟨outside, cut⟩
        have none := uncut (by omega)
        rw [spans, if_pos ⟨by omega, cut⟩] at none
        contradiction
      have shifted : shift (before + outer) lexeme = shift before lexeme + outer := by
        unfold shift
        split_ifs with opens closes
        · omega
        · have positive : before ≠ 0 := fun outside => opened ⟨outside, closes⟩
          omega
        · rfl
      rw [cons_append, spans, if_neg whole, shifted, ih depths]
      · rfl
      · rintro rfl
        have none := uncut rfl
        rw [Nat.add_zero] at whole
        rwa [spans, if_neg whole] at none

theorem passes_enclosed (balanced : Balanced lexemes) (uncut : isCut (.mark '(') = false) :
    Passes isCut (.mark '(' :: (lexemes ++ [.mark ')'])) := by
  refine ⟨balanced.enclosed, fun rest => ?_⟩
  have opened : shift 0 (.mark '(') = 0 + 1 := rfl
  have closed : spans isCut (0 + 1) (.mark ')' :: rest) =
      (.mark ')' :: (spans isCut 0 rest).1, (spans isCut 0 rest).2) := by
    rw [spans, if_neg (by omega)]
    rfl
  rw [cons_append, spans, if_neg (by simp [uncut]), opened, append_assoc,
    spans_append balanced 1 (by simp), singleton_append, closed]
  simp

/-- Lexemes that are put together at cuts are cut there again. -/
theorem spans_joined (firstPasses : Passes isCut first)
    (each : ∀ entry ∈ entries, isCut entry.1 = true ∧ Passes isCut entry.2) :
    spans isCut 0 (first ++ entries.flatMap fun entry => entry.1 :: entry.2) = (first, entries) := by
  rw [firstPasses.spans_append]
  induction entries generalizing first with
  | nil => simp [spans]
  | cons entry rest ih =>
    obtain ⟨⟨cut, passes⟩, others⟩ := forall_mem_cons.mp each
    have further := ih passes others
    rw [← passes.spans_append] at further
    rw [flatMap_cons, cons_append, spans, if_pos ⟨rfl, cut⟩, further]
    simp

end Passes

/-- The lexemes between a pair of parentheses. -/
def enclosed? : List Lexeme → Option (List Lexeme)
  | [] => none
  | first :: rest =>
      if first = .mark '(' ∧ rest.getLast? = some (.mark ')') ∧ Balanced rest.dropLast then
        some rest.dropLast
      else none

theorem enclosed?_eq (balanced : Balanced lexemes) :
    enclosed? (.mark '(' :: (lexemes ++ [.mark ')'])) = some lexemes := by
  simp [enclosed?, balanced]

def isComma (lexeme : Lexeme) : Bool := lexeme = .mark ','

def commaSeparated (lexemes : List Lexeme) : List (List Lexeme) :=
  (spans isComma 0 lexemes).1 :: (spans isComma 0 lexemes).2.map Prod.snd

def commaJoined : List (List Lexeme) → List Lexeme
  | [] => []
  | first :: rest => first ++ rest.flatMap (.mark ',' :: ·)

theorem commaSeparated_commaJoined {rest : List (List Lexeme)} (each : ∀ entry ∈ first :: rest, Passes isComma entry) :
    commaSeparated (commaJoined (first :: rest)) = first :: rest := by
  obtain ⟨firstPasses, restPasses⟩ := forall_mem_cons.mp each
  have cuts : ∀ entry ∈ rest.map fun entry => (mark ',', entry), isComma entry.1 = true ∧ Passes isComma entry.2 := by
    intro entry member
    obtain ⟨original, mem, rfl⟩ := mem_map.mp member
    exact ⟨rfl, restPasses original mem⟩
  have joined := spans_joined firstPasses cuts
  rw [flatMap_map] at joined
  rw [commaSeparated, commaJoined, joined, map_map]
  exact congrArg (first :: ·) (map_id rest)

theorem passes_commaJoined {isCut : Lexeme → Bool} {entries : List (List Lexeme)}
    (comma : isCut (.mark ',') = false) (each : ∀ entry ∈ entries, Passes isCut entry) :
    Passes isCut (commaJoined entries) := by
  have further : ∀ others : List (List Lexeme), (∀ entry ∈ others, Passes isCut entry) →
      Passes isCut (others.flatMap (.mark ',' :: ·)) := by
    intro others pass
    induction others with
    | nil => exact passes_nil
    | cons entry rest ih =>
      obtain ⟨entryPasses, restPass⟩ := forall_mem_cons.mp pass
      exact (entryPasses.cons comma rfl).append (ih restPass)
  cases entries with
  | nil => exact passes_nil
  | cons first rest =>
    obtain ⟨firstPasses, restPass⟩ := forall_mem_cons.mp each
    exact firstPasses.append (further rest restPass)

end Lexeme

namespace Reader

open Lexeme

def direction? (lexeme : Lexeme) : Option SortDirection :=
  if lexeme.isWord "ASC" then some .ascending
  else if lexeme.isWord "DESC" then some .descending
  else none

def nulls? : List Lexeme → Option (Option NullsOrder)
  | [] => some none
  | [first, second] =>
      if first.isWord "NULLS" && second.isWord "FIRST" then some (some .first)
      else if first.isWord "NULLS" && second.isWord "LAST" then some (some .last)
      else none
  | _ => none

def outputOrder? : List Lexeme → Option OutputOrder
  | .quoted name :: direction :: nulls => do
      return ⟨String.ofList name, ← direction? direction, ← nulls? nulls⟩
  | _ => none

def order? : List Lexeme → Option (List OutputOrder)
  | [] => none
  | first :: rest => if first.isWord "BY" then (commaSeparated rest).mapM outputOrder? else none

def number? : List Lexeme → Option Nat
  | [.word digits] => if digits.all Char.isDigit then some (Nat.ofDigitChars 10 digits 0) else none
  | _ => none

variable (dialect : Dialect)

/-- What follows the keyword LIMIT; for SQLite a negative number is no limit. -/
def limit? : List Lexeme → Option (Option Nat)
  | [] => none
  | first :: rest =>
      if first = .mark '-' ∧ dialect = .sqlite then
        (number? rest).bind fun value => if 0 < value then some none else none
      else (number? (first :: rest)).map some

/-- A clause that may be absent, and the clauses after it. -/
def clause? {β : Type} (keyword : String) (read : List Lexeme → Option β) (absent : β) :
    List (Lexeme × List Lexeme) → Option (β × List (Lexeme × List Lexeme))
  | [] => some (absent, [])
  | entry :: rest => if entry.1.isWord keyword then (read entry.2).map (·, rest) else some (absent, entry :: rest)

/-- The clauses at the end of a compound. SQLite takes an offset only after a limit. -/
def clauses? (entries : List (Lexeme × List Lexeme)) : Option Clauses := do
  let (order, afterOrder) ← clause? "ORDER" order? [] entries
  let (limit, afterLimit) ← clause? "LIMIT" (limit? dialect) none afterOrder
  let (offset, rest) ← clause? "OFFSET" (fun span => (number? span).map some) none afterLimit
  if rest = [] ∧ (dialect = .sqlite → afterLimit = [] ∨ afterLimit ≠ afterOrder) then
    some ⟨order, limit, offset⟩
  else none

/-- A set operator, with the lexemes of the member that follows it. -/
def operator? (keyword : Lexeme) (span : List Lexeme) : Option (SetOperator × List Lexeme) :=
  if keyword.isWord "UNION" then
    if span.head?.any (isWord "ALL") then some (.unionAll, span.tail) else some (.union, span)
  else if keyword.isWord "INTERSECT" then some (.intersection, span)
  else if keyword.isWord "EXCEPT" then some (.difference, span)
  else none

/-- The members after the first one, and the clauses after them. -/
def operators : List (Lexeme × List Lexeme) → List (SetOperator × List Lexeme) × List (Lexeme × List Lexeme)
  | [] => ([], [])
  | entry :: rest =>
      match operator? entry.1 entry.2 with
      | some found => (found :: (operators rest).1, (operators rest).2)
      | none => ([], entry :: rest)

/-- The keywords that end a member. -/
def keywords : List String := ["UNION", "INTERSECT", "EXCEPT", "ORDER", "LIMIT", "OFFSET"]

def isKeyword (lexeme : Lexeme) : Bool := keywords.any fun keyword => lexeme.isWord keyword

theorem isKeyword_eq_false_of_mem {text : List Char} {c : Char} (member : c ∈ text)
    (absent : ∀ keyword ∈ keywords, c.toUpper ∉ keyword.toList) :
    isKeyword (.word text) = false := by
  rw [isKeyword, any_eq_false]
  intro keyword mem
  rw [isWord_eq_false member (absent keyword mem)]
  exact Bool.false_ne_true

def wrapped? : List Lexeme → Option (List Lexeme)
  | first :: second :: third :: rest =>
      if first.isWord "SELECT" ∧ second = .mark '*' ∧ third.isWord "FROM" then enclosed? rest
      else none
  | _ => none

/-- One member. For SQLite it is a SELECT, and a compound if it reads all of one. For PostgreSQL it
stands in parentheses, and is a compound if it begins with a member itself. -/
def member? (nested : List Lexeme → Option (SetTree (List Lexeme))) (lexemes : List Lexeme) :
    Option (SetTree (List Lexeme)) :=
  match dialect with
  | .sqlite =>
      match wrapped? lexemes with
      | some inside => nested inside
      | none => if lexemes.head?.any (isWord "SELECT") then some (.leaf lexemes) else none
  | .postgres =>
      match enclosed? lexemes with
      | some inside => if inside.head? = some (.mark '(') then nested inside else some (.leaf inside)
      | none => none

/-- The members that follow operators. -/
def members? (dialect : Dialect) (nested : List Lexeme → Option (SetTree (List Lexeme))) :
    List (SetOperator × List Lexeme) → Option (List (SetOperator × SetTree (List Lexeme)))
  | [] => some []
  | entry :: rest => do
      let first ← member? dialect nested entry.2
      return (entry.1, first) :: (← members? dialect nested rest)

/-- Reads a compound down to the given number of levels. Operators associate to the left for SQLite;
PostgreSQL has precedences, so that only one operator at a level is read without them. -/
def compound? (dialect : Dialect) : Nat → List Lexeme → Option (SetTree (List Lexeme))
  | 0, _ => none
  | levels + 1, lexemes => do
      let (head, entries) := spans isKeyword 0 lexemes
      let (others, last) := operators entries
      let first ← member? dialect (compound? dialect levels) head
      let rest ← members? dialect (compound? dialect levels) others
      let clauses ← clauses? dialect last
      if rest.length = 1 ∨ (dialect = .sqlite ∧ rest ≠ []) then some (first.chain rest clauses)
      else none

/-- An entry of a WITH list. -/
def rowSet? : List Lexeme → Option (String × List Lexeme)
  | .word name :: second :: rest =>
      if second.isWord "AS" then (enclosed? rest).map (String.ofList name, ·) else none
  | _ => none

/-- Reads a compound with the WITH list before it. The list ends where the first SELECT begins. -/
def statement? : List Lexeme → Option (List (String × List Lexeme) × SetTree (List Lexeme))
  | [] => none
  | first :: rest =>
      if first.isWord "WITH" then do
        let list := (spans (isWord "SELECT") 0 rest).1
        let body := rest.drop list.length
        return (← (commaSeparated list).mapM rowSet?, ← compound? dialect body.length body)
      else do
        return ([], ← compound? dialect (rest.length + 1) (first :: rest))

/-- Reads a text. -/
def text? (text : List Char) : Option (List (String × List Lexeme) × SetTree (List Lexeme)) :=
  (Scanner.lexemes text).bind (statement? dialect)

end Reader

def SetOperator.lexeme : SetOperator → Lexeme
  | .union | .unionAll => .word "UNION".toList
  | .intersection => .word "INTERSECT".toList
  | .difference => .word "EXCEPT".toList

/-- What stands between the keyword of an operator and its member. -/
def SetOperator.suffix : SetOperator → List Lexeme
  | .unionAll => [.word "ALL".toList]
  | .union | .intersection | .difference => []

namespace Reader

open Lexeme

/-- The lexemes of an operator and the member after it, as they are cut. -/
def operatorEntry (entry : SetOperator × List Lexeme) : Lexeme × List Lexeme :=
  (entry.1.lexeme, entry.1.suffix ++ entry.2)

/-- A member can stand after an operator: it does not begin with the keyword ALL. -/
def Follows (lexemes : List Lexeme) : Prop := lexemes.head?.any (isWord "ALL") = false

theorem operator?_operatorEntry {op : SetOperator} (follows : Follows lexemes) :
    operator? (operatorEntry (op, lexemes)).1 (operatorEntry (op, lexemes)).2 = some (op, lexemes) := by
  cases op with
  | union =>
    change (if lexemes.head?.any (isWord "ALL") then _ else _) = _
    rw [follows]
    rfl
  | unionAll | intersection | difference => rfl

variable {members : List (SetOperator × List Lexeme)}

theorem operators_append (follow : ∀ entry ∈ members, Follows entry.2) (ended : operators last = ([], last)) :
    operators (members.map operatorEntry ++ last) = (members, last) := by
  induction members with
  | nil => exact ended
  | cons entry rest ih =>
    obtain ⟨first, others⟩ := forall_mem_cons.mp follow
    rw [map_cons, cons_append, operators, operator?_operatorEntry first, ih others]

theorem operatorEntry_cut (pass : ∀ entry ∈ members, Passes isKeyword entry.2) :
    ∀ entry ∈ members.map operatorEntry, isKeyword entry.1 = true ∧ Passes isKeyword entry.2 := by
  intro entry member
  obtain ⟨⟨op, lexemes⟩, mem, rfl⟩ := mem_map.mp member
  have passes := pass _ mem
  cases op with
  | union | intersection | difference => exact ⟨rfl, passes⟩
  | unionAll => exact ⟨rfl, passes.cons rfl rfl⟩

theorem balanced_joined (each : ∀ entry ∈ entries, isKeyword entry.1 = true ∧ Passes isKeyword entry.2) :
    Balanced (entries.flatMap fun entry => entry.1 :: entry.2) := by
  induction entries with
  | nil => rfl
  | cons entry rest ih =>
    obtain ⟨⟨keyword, passes⟩, others⟩ := forall_mem_cons.mp each
    have flat : entry.1.token? = none := by
      cases found : entry.1 with
      | word text => rfl
      | quoted _ | literal _ | mark _ => simp [isKeyword, found, isWord] at keyword
    exact (passes.balanced.cons flat).append (ih others)

/-- Members and clauses that are put together at the keywords are read as a chain of the members. -/
theorem compound?_joined {dialect : Dialect} {levels : Nat} {head : List Lexeme}
    {first : SetTree (List Lexeme)} {rest : List (SetOperator × SetTree (List Lexeme))}
    {clauses : Clauses} (headPasses : Passes isKeyword head)
    (pass : ∀ entry ∈ members, Passes isKeyword entry.2 ∧ Follows entry.2)
    (cut : ∀ entry ∈ last, isKeyword entry.1 = true ∧ Passes isKeyword entry.2)
    (ended : operators last = ([], last))
    (headRead : member? dialect (compound? dialect levels) head = some first)
    (membersRead : members? dialect (compound? dialect levels) members = some rest)
    (clausesRead : clauses? dialect last = some clauses)
    (joinable : rest.length = 1 ∨ (dialect = .sqlite ∧ rest ≠ [])) :
    compound? dialect (levels + 1)
        (head ++ (members.map operatorEntry ++ last).flatMap fun entry => entry.1 :: entry.2) =
      some (first.chain rest clauses) := by
  have cuts : ∀ entry ∈ members.map operatorEntry ++ last, isKeyword entry.1 = true ∧ Passes isKeyword entry.2 :=
    forall_mem_append.mpr ⟨operatorEntry_cut fun entry mem => (pass entry mem).1, cut⟩
  simp only [compound?, spans_joined headPasses cuts,
    operators_append (fun entry mem => (pass entry mem).2) ended, headRead, membersRead,
    clausesRead, Option.bind_eq_bind, Option.bind_some, if_pos joinable]

end Reader

end GraphSql
