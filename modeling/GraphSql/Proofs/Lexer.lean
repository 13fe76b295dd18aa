import GraphSql.Fragment

namespace GraphSql

open Bool Identifier List Nat Text

/-- What stands outside of quotes and names. -/
inductive Token where
  | opening
  | closing
  | placeholder (text : List Char)
  deriving DecidableEq, Repr

namespace Token

/-- The text of a placeholder. -/
def mark? : Token → Option (List Char)
  | .placeholder text => some text
  | .opening | .closing => none

/-- The depth after some tokens, if no parenthesis is closed that was not opened. -/
def depthFrom : Nat → List Token → Option Nat
  | depth, [] => some depth
  | depth, .opening :: rest => depthFrom (depth + 1) rest
  | depth, .closing :: rest => if depth = 0 then none else depthFrom (depth - 1) rest
  | depth, .placeholder _ :: rest => depthFrom depth rest

/-- Every parenthesis is closed, and none before it is opened. -/
def Balanced (tokens : List Token) : Prop := depthFrom 0 tokens = some 0

theorem depthFrom_append (depth : Nat) (first second : List Token) : depthFrom depth (first ++ second) =
      (depthFrom depth first).bind fun middle => depthFrom middle second := by
  induction first generalizing depth with
  | nil => rfl
  | cons token rest ih =>
    cases token with
    | opening => exact ih _
    | closing =>
      simp only [cons_append, depthFrom]
      split
      · rfl
      · exact ih _
    | placeholder text => exact ih _

/-- Tokens that do not go below one depth do not go below a greater one. -/
theorem depthFrom_add {before after : Nat} {tokens : List Token}
    (reached : depthFrom before tokens = some after) (extra : Nat) :
    depthFrom (extra + before) tokens = some (extra + after) := by
  induction tokens generalizing before with
  | nil =>
    obtain rfl := Option.some_inj.mp reached
    rfl
  | cons token rest ih =>
    cases token with
    | opening => exact ih reached
    | closing =>
      simp only [depthFrom] at reached ⊢
      split at reached
      · simp at reached
      · next positive =>
        rw [if_neg (by omega), show extra + before - 1 = extra + (before - 1) by omega]
        exact ih reached
    | placeholder text => exact ih reached

end Token

variable {c : Char} {mode : Mode}

namespace Lexer

/-- Where the lexer is in the text. -/
inductive Mode where
  /-- Between tokens. -/
  | plain
  | name
  | literal
  /-- After a mark that ends a literal, unless the same mark follows. -/
  | literalMark
  | quoted
  | quotedMark
  /-- After a dollar sign and some digits. -/
  | marker (digits : List Char)
  deriving DecidableEq, Repr

variable (dialect : Dialect)

/-- A character that does not continue what came before it. -/
def enter (c : Char) : List Token × Mode :=
  if c = '\'' then ([], .literal)
  else if c = '"' then ([], .quoted)
  else if c = '(' then ([.opening], .plain)
  else if c = ')' then ([.closing], .plain)
  else if c = '?' ∧ dialect = .sqlite then ([.placeholder [c]], .plain)
  else if c = '$' ∧ dialect = .postgres then ([], .marker [])
  else if isFirst c then ([], .name)
  else ([], .plain)

/-- The token that is complete if nothing continues it. -/
def pending : Mode → List Token
  | .marker (digit :: digits) => [.placeholder ('$' :: digit :: digits)]
  | _ => []

/-- The tokens that a character completes, and where the lexer is after it. -/
def step (mode : Mode) (c : Char) : List Token × Mode :=
  match mode with
  | .plain => enter dialect c
  | .name => if isRest c then ([], .name) else enter dialect c
  | .literal => ([], if c = '\'' then .literalMark else .literal)
  | .literalMark => if c = '\'' then ([], .literal) else enter dialect c
  | .quoted => ([], if c = '"' then .quotedMark else .quoted)
  | .quotedMark => if c = '"' then ([], .quoted) else enter dialect c
  | .marker digits =>
      if c.isDigit then ([], .marker (digits ++ [c]))
      else (pending (.marker digits) ++ (enter dialect c).1, (enter dialect c).2)

def run (dialect : Dialect) : Mode → List Char → List Token × Mode
  | mode, [] => ([], mode)
  | mode, c :: rest =>
      let next := step dialect mode c
      let after := run dialect next.2 rest
      (next.1 ++ after.1, after.2)

/-- The lexer is not inside of quotes. -/
def isOutside : Mode → Bool
  | .literal | .quoted => false
  | _ => true

/-- The tokens of a text that does not end inside of quotes. -/
def tokens (text : List Char) : Option (List Token) :=
  let after := run dialect .plain text
  if isOutside after.2 then some (after.1 ++ pending after.2) else none

theorem run_append (dialect : Dialect) (mode : Mode) (first second : List Char) : run dialect mode (first ++ second) =
      ((run dialect mode first).1 ++ (run dialect (run dialect mode first).2 second).1,
        (run dialect (run dialect mode first).2 second).2) := by
  induction first generalizing mode with
  | nil => rfl
  | cons c rest ih => simp [run, ih]

section Words

variable {dialect : Dialect}

theorem run_of_stays {text : List Char} (stays : ∀ c ∈ text, step dialect mode c = ([], mode)) :
    run dialect mode text = ([], mode) := by
  induction text with
  | nil => rfl
  | cons c rest ih =>
    rw [forall_mem_cons] at stays
    simp [run, stays.1, ih stays.2]

theorem enter_isFirst (first : isFirst c = true) : enter dialect c = ([], .name) := by
  have differs : ∀ other, isFirst other = false → c ≠ other := by
    rintro other no rfl
    rw [first] at no
    contradiction
  simp [enter, first, differs '\'' rfl, differs '"' rfl, differs '(' rfl, differs ')' rfl,
    differs '?' rfl, differs '$' rfl]

theorem run_name {name : List Char} (shaped : hasShape name = true) : run dialect .plain name = ([], .name) := by
  cases name with
  | nil => simp [hasShape] at shaped
  | cons first rest =>
    simp only [hasShape, and_eq_true, all_eq_true] at shaped
    have continued : run dialect .name rest = ([], .name) := run_of_stays fun c mem => by simp [step, shaped.2 c mem]
    simp [run, step, enter_isFirst shaped.1, continued]

theorem enter_isDigit (digit : c.isDigit = true) : enter dialect c = ([], .plain) := by
  have differs : ∀ other, other.isDigit = false → c ≠ other := by
    rintro other no rfl
    rw [digit] at no
    contradiction
  have notFirst : isFirst c = false := by
    have notAlpha : c.isAlpha = false := by
      change (decide (c.val ≥ 'A'.val ∧ c.val ≤ 'Z'.val) ||
        (decide (c.val ≥ 'a'.val) && decide (c.val ≤ 'z'.val))) = false
      simp only [Char.isDigit, and_eq_true, decide_eq_true_eq, or_eq_false_iff,
        and_eq_false_iff, decide_eq_false_iff_not, UInt32.le_iff_toNat_le, ge_iff_le] at digit ⊢
      have nine : '9'.val.toNat = 57 := rfl
      have upper : 'A'.val.toNat = 65 := rfl
      have lower : 'a'.val.toNat = 97 := rfl
      omega
    simp [isFirst, notAlpha, differs '_' rfl]
  simp [enter, notFirst, differs '\'' rfl, differs '"' rfl, differs '(' rfl, differs ')' rfl,
    differs '?' rfl, differs '$' rfl]

theorem run_digits {digits : List Char} (each : ∀ c ∈ digits, c.isDigit = true) :
    run dialect .plain digits = ([], .plain) :=
  run_of_stays fun c mem => enter_isDigit (each c mem)

theorem run_marker (seen : List Char) {digits : List Char} (each : ∀ c ∈ digits, c.isDigit = true) :
    run dialect (.marker seen) digits = ([], .marker (seen ++ digits)) := by
  induction digits generalizing seen with
  | nil => simp [run]
  | cons c rest ih =>
    rw [forall_mem_cons] at each
    simp [run, step, each.1, ih (seen ++ [c]) each.2]

def isUnquoted : Mode → Bool
  | .plain | .name | .marker _ => true
  | .literal | .literalMark | .quoted | .quotedMark => false

theorem enter_isRest (dialect : Dialect) (isRest : isRest c = true) : isUnquoted (enter dialect c).2 = true ∧
    (enter dialect c).1 = [] := by
  have differs : ∀ other, Identifier.isRest other = false → c ≠ other := by
    rintro other no rfl
    rw [isRest] at no
    contradiction
  rw [enter, if_neg (differs '\'' rfl), if_neg (differs '"' rfl), if_neg (differs '(' rfl),
    if_neg (differs ')' rfl), if_neg fun both => differs '?' rfl both.1]
  split
  · exact ⟨rfl, rfl⟩
  · split <;> exact ⟨rfl, rfl⟩

theorem isSome_mark?_pending (mode : Mode) : ∀ token ∈ pending mode, token.mark?.isSome = true := by
  unfold pending
  split <;> simp [Token.mark?]

theorem run_word (dialect : Dialect) (mode : Mode) {text : List Char} (word : ∀ c ∈ text, isRest c = true)
    (unquoted : isUnquoted mode = true) : isUnquoted (run dialect mode text).2 = true ∧
      ∀ token ∈ (run dialect mode text).1, token.mark?.isSome = true := by
  induction text generalizing mode with
  | nil => exact ⟨unquoted, by simp [run]⟩
  | cons c rest ih =>
    rw [forall_mem_cons] at word
    obtain ⟨entered, none⟩ := enter_isRest dialect word.1
    have next : isUnquoted (step dialect mode c).2 = true ∧
        ∀ token ∈ (step dialect mode c).1, token.mark?.isSome = true := by
      cases mode with
      | plain => exact ⟨entered, by simp [step, none]⟩
      | name => simp [step, word.1, isUnquoted]
      | marker digits =>
        rw [step]
        split
        · exact ⟨rfl, by simp⟩
        · rw [none, append_nil]
          exact ⟨entered, isSome_mark?_pending _⟩
      | literal | literalMark | quoted | quotedMark => contradiction
    obtain ⟨final, marks⟩ := ih _ word.2 next.1
    exact ⟨final, forall_mem_append.mpr ⟨next.2, marks⟩⟩

theorem step_of_not_isRest (unquoted : isUnquoted mode = true) (ends : isRest c = false) :
    step dialect mode c = (pending mode ++ (enter dialect c).1, (enter dialect c).2) := by
  have notDigit : c.isDigit = false := by
    cases digit : c.isDigit with
    | false => rfl
    | true => simp [isRest, Char.isAlphanum, digit] at ends
  cases mode with
  | plain => rfl
  | name => simp [step, ends, pending]
  | marker digits => simp [step, notDigit]
  | literal | literalMark | quoted | quotedMark => contradiction

end Words

end Lexer

end GraphSql
