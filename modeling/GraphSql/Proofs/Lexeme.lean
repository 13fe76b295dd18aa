import GraphSql.Proofs.Lexer
import Mathlib.Tactic.SplitIfs

namespace GraphSql

open Bool List Text

/-- The name may stand in a statement without quotes. -/
def IsShaped (name : String) : Prop := Identifier.hasShape name.toList = true

theorem IsShaped.isRest {name : String} (shaped : IsShaped name) : name.toList.all Identifier.isRest = true := by
  unfold IsShaped at shaped
  cases found : name.toList with
  | nil => rfl
  | cons first rest =>
    rw [found] at shaped
    simp only [Identifier.hasShape, and_eq_true] at shaped
    have begins : Identifier.isRest first = true := by
      rcases or_eq_true_iff.mp shaped.1 with letter | underscore
      · simp [Identifier.isRest, Char.isAlphanum, letter]
      · simp [Identifier.isRest, underscore]
    rw [all_cons, begins, shaped.2]
    rfl

theorem isRest_toString (index : Nat) : (toString index).toList.all Identifier.isRest = true := by
  rw [all_eq_true]
  intro c member
  have mem : c ∈ Nat.toDigits 10 index := by simpa [toString, Nat.repr] using member
  have digit := Nat.isDigit_of_mem_toDigits (by decide) (by decide) mem
  simp [Identifier.isRest, Char.isAlphanum, digit]

/-- A unit of SQL text. -/
inductive Lexeme where
  /-- A keyword, a name without quotes or a number. -/
  | word (text : List Char)
  | quoted (name : List Char)
  | literal (text : List Char)
  | mark (c : Char)
  deriving DecidableEq, Repr

namespace Lexeme

/-- The parenthesis that a lexeme is. -/
def token? (lexeme : Lexeme) : Option Token :=
  if lexeme = .mark '(' then some .opening
  else if lexeme = .mark ')' then some .closing
  else none

/-- The depth after some lexemes, if no parenthesis is closed that was not opened. -/
def depthFrom (depth : Nat) (lexemes : List Lexeme) : Option Nat := Token.depthFrom depth (lexemes.filterMap token?)

/-- Every parenthesis is closed, and none before it is opened. -/
def Balanced (lexemes : List Lexeme) : Prop := depthFrom 0 lexemes = some 0

instance (lexemes : List Lexeme) : Decidable (Balanced lexemes) := inferInstanceAs (Decidable (_ = _))

theorem depthFrom_append (depth : Nat) (first second : List Lexeme) : depthFrom depth (first ++ second) =
      (depthFrom depth first).bind fun middle => depthFrom middle second := by
  rw [depthFrom, filterMap_append, Token.depthFrom_append]
  rfl

theorem Balanced.append {first second : List Lexeme} (firstBalanced : Balanced first)
    (secondBalanced : Balanced second) : Balanced (first ++ second) := by
  rw [Balanced, depthFrom_append, firstBalanced]
  exact secondBalanced

theorem Balanced.deeper {lexemes : List Lexeme} (balanced : Balanced lexemes) (depth : Nat) :
    depthFrom depth lexemes = some depth :=
  Token.depthFrom_add balanced depth

theorem Balanced.enclosed {lexemes : List Lexeme} (balanced : Balanced lexemes) :
    Balanced (.mark '(' :: (lexemes ++ [.mark ')'])) := by
  change depthFrom 1 (lexemes ++ [.mark ')']) = some 0
  rw [depthFrom_append, balanced.deeper 1]
  rfl

/-- The tokens that a lexeme stands for. There are no parentheses in a word. -/
def tokens (dialect : Dialect) : Lexeme → List Token
  | .word text =>
      let after := Lexer.run dialect .plain text
      (after.1 ++ Lexer.pending after.2).filter (·.mark?.isSome)
  | .mark c => (Lexer.enter dialect c).1
  | .quoted _ | .literal _ => []

end Lexeme

def Token.isParenthesis (token : Token) : Bool := token.mark?.isNone

theorem Token.depthFrom_filter (depth : Nat) (tokens : List Token) :
    depthFrom depth (tokens.filter isParenthesis) = depthFrom depth tokens := by
  induction tokens generalizing depth with
  | nil => rfl
  | cons token rest ih =>
    cases token with
    | opening => exact ih (depth + 1)
    | closing =>
      change (if depth = 0 then none else depthFrom (depth - 1) (rest.filter isParenthesis)) =
        if depth = 0 then none else depthFrom (depth - 1) rest
      rw [ih]
    | placeholder text => exact ih depth

theorem Lexeme.filter_tokens (dialect : Dialect) (lexeme : Lexeme) :
    (lexeme.tokens dialect).filter Token.isParenthesis = lexeme.token?.toList := by
  cases lexeme with
  | word text =>
    rw [tokens, filter_filter, filter_eq_nil_iff.mpr]
    · rfl
    · rintro (_ | _ | _) - <;> simp [Token.isParenthesis, Token.mark?]
  | quoted | literal => rfl
  | mark c =>
    by_cases opens : c = '('
    · subst opens
      rfl
    by_cases closes : c = ')'
    · subst closes
      rfl
    simp only [tokens, token?, Lexer.enter, mark.injEq, if_neg opens, if_neg closes]
    split_ifs <;> rfl

theorem Lexeme.depthFrom_tokens (dialect : Dialect) (depth : Nat) (lexemes : List Lexeme) :
    Token.depthFrom depth (lexemes.flatMap (tokens dialect)) = depthFrom depth lexemes := by
  rw [← Token.depthFrom_filter, filter_flatMap, depthFrom]
  congr 1
  induction lexemes with
  | nil => rfl
  | cons lexeme rest ih => rw [flatMap_cons, ih, filter_tokens, filterMap_cons]; cases lexeme.token? <;> rfl

variable {rest : List Char} {text : String}

namespace Scanner

/-- Where the scanner is in the text, with what it has read of a lexeme. -/
inductive Mode where
  | plain
  | word (text : List Char)
  | literal (text : List Char)
  /-- After a mark that ends a literal, unless the same mark follows. -/
  | literalMark (text : List Char)
  | quoted (name : List Char)
  | quotedMark (name : List Char)
  deriving DecidableEq, Repr

/-- A character that does not continue what came before it. -/
def enter (c : Char) : List Lexeme × Mode :=
  if c = '\'' then ([], .literal [])
  else if c = '"' then ([], .quoted [])
  else if Identifier.isRest c then ([], .word [c])
  else if c = ' ' ∨ c = '\n' then ([], .plain)
  else ([.mark c], .plain)

/-- The lexeme that is complete if nothing continues it. -/
def pending : Mode → List Lexeme
  | .word text => [.word text]
  | .literalMark text => [.literal text]
  | .quotedMark name => [.quoted name]
  | .plain | .literal _ | .quoted _ => []

/-- The end of what came before, and a new beginning. -/
def leave (mode : Mode) (c : Char) : List Lexeme × Mode := (pending mode ++ (enter c).1, (enter c).2)

/-- The lexemes that a character completes, and where the scanner is after it. -/
def step (mode : Mode) (c : Char) : List Lexeme × Mode :=
  match mode with
  | .plain => enter c
  | .word text => if Identifier.isRest c then ([], .word (text ++ [c])) else leave mode c
  | .literal text => ([], if c = '\'' then .literalMark text else .literal (text ++ [c]))
  | .literalMark text => if c = '\'' then ([], .literal (text ++ [c])) else leave mode c
  | .quoted name => ([], if c = '"' then .quotedMark name else .quoted (name ++ [c]))
  | .quotedMark name => if c = '"' then ([], .quoted (name ++ [c])) else leave mode c

def run : Mode → List Char → List Lexeme × Mode
  | mode, [] => ([], mode)
  | mode, c :: rest => ((step mode c).1 ++ (run (step mode c).2 rest).1, (run (step mode c).2 rest).2)

/-- The scanner is not inside of quotes. -/
def isOutside : Mode → Bool
  | .literal _ | .quoted _ => false
  | _ => true

def isPlain : Mode → Bool
  | .plain => true
  | _ => false

/-- The lexemes of a text that does not end inside of quotes. -/
def lexemes (text : List Char) : Option (List Lexeme) :=
  let after := run .plain text
  if isOutside after.2 then some (after.1 ++ pending after.2) else none

theorem run_append (mode : Mode) (first second : List Char) : run mode (first ++ second) =
      ((run mode first).1 ++ (run (run mode first).2 second).1, (run (run mode first).2 second).2) := by
  induction first generalizing mode with
  | nil => rfl
  | cons c rest ih => simp [run, ih]

theorem isOutside_of_isPlain (mode : Mode) (plain : isPlain mode = true) : isOutside mode = true := by
  cases mode <;> simp_all [isPlain, isOutside]

/-- A character that continues neither a word nor quotes. -/
def isSeparator (c : Char) : Bool := !Identifier.isRest c && c != '\'' && c != '"'

def beginsSeparated (text : String) : Bool :=
  match text.toList with
  | [] => false
  | c :: _ => isSeparator c

theorem step_separator {mode : Mode} (outside : isOutside mode = true) {c : Char}
    (separator : isSeparator c = true) : step mode c = leave mode c := by
  simp only [isSeparator, and_eq_true, not_eq_true', bne_iff_ne] at separator
  obtain ⟨⟨notRest, notLiteral⟩, notQuoted⟩ := separator
  cases mode with
  | plain => rfl
  | word text => simp [step, notRest]
  | literal _ | quoted _ => simp [isOutside] at outside
  | literalMark text => simp [step, notLiteral]
  | quotedMark name => simp [step, notQuoted]

/-- Where the lexer is when the scanner is in a mode, with the tokens of a word that is not complete. -/
def Mode.lexer (dialect : Dialect) : Mode → List Token × Lexer.Mode
  | .plain => ([], .plain)
  | .word text => Lexer.run dialect .plain text
  | .literal _ => ([], .literal)
  | .literalMark _ => ([], .literalMark)
  | .quoted _ => ([], .quoted)
  | .quotedMark _ => ([], .quotedMark)

/-- A word has no other characters than those of words. -/
def Mode.IsProper : Mode → Prop
  | .word text => ∀ c ∈ text, Identifier.isRest c = true
  | _ => True

section Agree

variable (dialect : Dialect)

/-- The tokens of complete lexemes, and the lexer in the mode after them. -/
def lexed (after : List Lexeme × Mode) : List Token × Lexer.Mode :=
  (after.1.flatMap (Lexeme.tokens dialect) ++ (after.2.lexer dialect).1, (after.2.lexer dialect).2)

theorem enter_agrees (c : Char) : (enter c).2.IsProper ∧ Lexer.enter dialect c = lexed dialect (enter c) := by
  unfold enter
  split_ifs with isLiteral isQuoted isRest isBlank
  · subst isLiteral
    exact ⟨trivial, rfl⟩
  · subst isQuoted
    exact ⟨trivial, rfl⟩
  · refine ⟨forall_mem_singleton.mpr isRest, ?_⟩
    simp [lexed, Mode.lexer, Lexer.run, Lexer.step]
  · rcases isBlank with rfl | rfl <;> exact ⟨trivial, rfl⟩
  · have notFirst : Identifier.isFirst c = false := by
      simp_all [Identifier.isFirst, Identifier.isRest, Char.isAlphanum]
    have notDollar : c ≠ '$' := by
      rintro rfl
      exact isRest rfl
    refine ⟨trivial, Prod.ext (by simp [lexed, Mode.lexer, Lexeme.tokens]) ?_⟩
    unfold Lexer.enter
    split_ifs <;> simp_all [lexed, Mode.lexer]

variable {mode : Mode} (proper : mode.IsProper)
include proper

theorem pending_agrees : (mode.lexer dialect).1 ++ Lexer.pending (mode.lexer dialect).2 =
    (pending mode).flatMap (Lexeme.tokens dialect) := by
  cases mode with
  | word text =>
    have marks := (Lexer.run_word dialect .plain proper rfl).2
    rw [pending, flatMap_singleton, Lexeme.tokens, filter_eq_self.mpr]
    · rfl
    · exact forall_mem_append.mpr ⟨marks, Lexer.isSome_mark?_pending _⟩
  | _ => rfl

theorem leave_agrees {c : Char} (ends : Lexer.step dialect (mode.lexer dialect).2 c =
      (Lexer.pending (mode.lexer dialect).2 ++ (Lexer.enter dialect c).1, (Lexer.enter dialect c).2)) :
    (leave mode c).2.IsProper ∧ ((mode.lexer dialect).1 ++ (Lexer.step dialect (mode.lexer dialect).2 c).1,
      (Lexer.step dialect (mode.lexer dialect).2 c).2) = lexed dialect (leave mode c) := by
  obtain ⟨entered, same⟩ := enter_agrees dialect c
  refine ⟨entered, ?_⟩
  rw [ends, ← append_assoc, pending_agrees dialect proper, same]
  simp [lexed, leave]

theorem step_agrees (c : Char) : (step mode c).2.IsProper ∧
    ((mode.lexer dialect).1 ++ (Lexer.step dialect (mode.lexer dialect).2 c).1,
      (Lexer.step dialect (mode.lexer dialect).2 c).2) = lexed dialect (step mode c) := by
  cases mode with
  | plain => exact enter_agrees dialect c
  | word text =>
    rw [step]
    split
    · next isRest =>
      refine ⟨forall_mem_append.mpr ⟨proper, forall_mem_singleton.mpr isRest⟩, ?_⟩
      simp [lexed, Mode.lexer, Lexer.run_append, Lexer.run]
    · next ends =>
      exact leave_agrees dialect proper (Lexer.step_of_not_isRest
        (Lexer.run_word dialect .plain proper rfl).1 (eq_false_of_ne_true ends))
  | literal | quoted =>
    simp only [step, Mode.lexer, Lexer.step]
    split <;> exact ⟨trivial, rfl⟩
  | literalMark | quotedMark =>
    rw [step]
    split
    · next isMark =>
      subst isMark
      exact ⟨trivial, rfl⟩
    · next notMark => exact leave_agrees dialect proper (by simp [Mode.lexer, Lexer.step, notMark, Lexer.pending])

theorem run_agrees (text : List Char) : (run mode text).2.IsProper ∧
    ((mode.lexer dialect).1 ++ (Lexer.run dialect (mode.lexer dialect).2 text).1,
      (Lexer.run dialect (mode.lexer dialect).2 text).2) = lexed dialect (run mode text) := by
  induction text generalizing mode with
  | nil => exact ⟨proper, by simp [Lexer.run, run, lexed]⟩
  | cons c rest ih =>
    obtain ⟨next, stepped⟩ := step_agrees dialect proper c
    obtain ⟨final, ran⟩ := ih next
    refine ⟨final, ?_⟩
    obtain ⟨tokens, modes⟩ := Prod.mk.inj stepped
    obtain ⟨further, finals⟩ := Prod.mk.inj ran
    simp only [Lexer.run, run, modes, finals, lexed, flatMap_append, append_assoc, ← further]
    rw [← append_assoc, tokens, append_assoc]

theorem isOutside_lexer : Lexer.isOutside (mode.lexer dialect).2 = isOutside mode := by
  cases mode with
  | word text =>
    have unquoted := (Lexer.run_word dialect .plain proper rfl).1
    rw [Mode.lexer]
    cases reached : (Lexer.run dialect .plain text).2 with
    | literal | quoted =>
      rw [reached] at unquoted
      contradiction
    | _ => rfl
  | _ => rfl

end Agree

/-- A text takes the scanner from one mode to another and completes the lexemes in between. -/
def Reaches (mode : Mode) (text : List Char) (final : Mode) (lexemes : List Lexeme) : Prop :=
  ∃ completed, run mode text = (completed, final) ∧ completed ++ pending final = pending mode ++ lexemes

theorem Reaches.append {mode middle final : Mode} {first second : List Char}
    {before after : List Lexeme} (toMiddle : Reaches mode first middle before)
    (toFinal : Reaches middle second final after) :
    Reaches mode (first ++ second) final (before ++ after) := by
  obtain ⟨completed, ran, begun⟩ := toMiddle
  obtain ⟨further, ranOn, ended⟩ := toFinal
  refine ⟨completed ++ further, ?_, ?_⟩
  · rw [run_append, ran]
    dsimp only
    rw [ranOn]
  · rw [append_assoc, ended, ← append_assoc, begun, append_assoc]

theorem Reaches.of_plain {mode final : Mode} {c : Char} {lexemes : List Lexeme}
    (outside : isOutside mode = true) (separator : isSeparator c = true)
    (reaches : Reaches .plain (c :: rest) final lexemes) :
    Reaches mode (c :: rest) final lexemes := by
  obtain ⟨completed, ran, ended⟩ := reaches
  refine ⟨pending mode ++ completed, ?_, ?_⟩
  · simp only [run, step_separator outside separator, leave]
    simp only [run, step, Prod.mk.injEq] at ran
    rw [append_assoc, ran.1, ran.2]
  · rw [append_assoc, ended]
    rfl

theorem Reaches.lexemes_eq {text : List Char} {final : Mode} {found : List Lexeme}
    (reaches : Reaches .plain text final found) (outside : isOutside final = true) :
    lexemes text = some found := by
  obtain ⟨completed, ran, ended⟩ := reaches
  simp only [lexemes, ran, outside, if_true, ended]
  rfl

theorem Reaches.tokens_eq (dialect : Dialect) {text : List Char} {final : Mode} {found : List Lexeme}
    (reaches : Reaches .plain text final found) (outside : isOutside final = true) :
    Lexer.tokens dialect text = some (found.flatMap (Lexeme.tokens dialect)) := by
  obtain ⟨completed, ran, rfl⟩ := reaches
  have start : Mode.plain.IsProper := trivial
  obtain ⟨proper, agrees⟩ := run_agrees dialect start text
  rw [ran] at proper agrees
  have same : Lexer.run dialect .plain text = lexed dialect (completed, final) := agrees
  simp only [Lexer.tokens, same, lexed, isOutside_lexer dialect proper, outside, if_true, append_assoc,
    pending_agrees dialect proper, flatMap_append]

theorem reaches_word {first : Char} (begins : Identifier.isRest first = true)
    (continues : ∀ c ∈ rest, Identifier.isRest c = true) :
    Reaches .plain (first :: rest) (.word (first :: rest)) [.word (first :: rest)] := by
  have differs : ∀ mark, Identifier.isRest mark = false → first ≠ mark := by
    rintro mark no rfl
    rw [begins] at no
    contradiction
  have further : ∀ seen, run (.word seen) rest = ([], .word (seen ++ rest)) := by
    intro seen
    induction rest generalizing seen with
    | nil => simp [run]
    | cons c others ih =>
      have others := ih fun other mem => continues other (by simp [mem])
      simp [run, step, continues c (by simp), others]
  refine ⟨[], ?_, rfl⟩
  simp [run, step, enter, begins, differs '\'' rfl, differs '"' rfl, further]

/-- Where a mark inside of quotes is written twice, it is read once. -/
theorem reaches_doubled {mark : Char} {inside closed : List Char → Mode}
    (stays : ∀ seen, ∀ c ≠ mark, step (inside seen) c = ([], inside (seen ++ [c])))
    (leaves : ∀ seen, step (inside seen) mark = ([], closed seen))
    (returns : ∀ seen, step (closed seen) mark = ([], inside (seen ++ [mark])))
    (seen text : List Char) :
    run (inside seen) (doubled mark text ++ [mark]) = ([], closed (seen ++ text)) := by
  induction text generalizing seen with
  | nil => simp [run, leaves]
  | cons c rest ih =>
    have split : doubled mark (c :: rest) = doubled mark [c] ++ doubled mark rest := doubled_append mark [c] rest
    have passes : run (inside seen) (doubled mark [c]) = ([], inside (seen ++ [c])) := by
      by_cases same : c = mark
      · simp [doubled, same, run, leaves, returns]
      · simp [doubled, same, run, stays seen c same]
    rw [split, append_assoc, run_append, passes]
    simp [ih]

/-- A word that has begun is the next lexeme, however it goes on. -/
theorem exists_word_of_run (seen text : List Char) :
    ∃ word rest, (run (.word seen) text).1 ++ pending (run (.word seen) text).2 = .word word :: rest := by
  induction text generalizing seen with
  | nil => exact ⟨seen, [], rfl⟩
  | cons c others ih =>
    by_cases isRest : Identifier.isRest c = true
    · have continued : step (.word seen) c = ([], .word (seen ++ [c])) := by simp [step, isRest]
      simp only [run, continued, nil_append]
      exact ih (seen ++ [c])
    · have ended : step (.word seen) c = leave (.word seen) c := by simp [step, isRest]
      simp only [run, ended]
      exact ⟨seen, _, rfl⟩

theorem reaches_quoteName (name : String) :
    Reaches .plain (quoteName name).toList (.quotedMark name.toList) [.quoted name.toList] := by
  have ran := reaches_doubled
    (show ∀ seen, ∀ c ≠ '"', step (.quoted seen) c = ([], .quoted (seen ++ [c])) from
      fun seen c differs => by simp [step, differs])
    (fun _ => rfl) (fun _ => rfl) [] name.toList
  refine ⟨[], ?_, rfl⟩
  rw [quoteName, toList_quotedWith]
  exact ran

theorem reaches_quoteLiteral (value : String) :
    Reaches .plain (quoteLiteral value).toList (.literalMark value.toList) [.literal value.toList] := by
  have ran := reaches_doubled
    (show ∀ seen, ∀ c ≠ '\'', step (.literal seen) c = ([], .literal (seen ++ [c])) from
      fun seen c differs => by simp [step, differs])
    (fun _ => rfl) (fun _ => rfl) [] value.toList
  refine ⟨[], ?_, rfl⟩
  rw [quoteLiteral, toList_quotedWith]
  exact ran

end Scanner

namespace Fragment

/-- From any mode of one class, the text of the fragment takes the scanner to a mode of another class
and adds the given lexemes. The position is that of the first slot. -/
def Spells (dialect : Dialect) (entry exit : Scanner.Mode → Bool) (index : Nat)
    (fragment : Fragment) (lexemes : List Lexeme) : Prop :=
  ∀ mode, entry mode = true → ∃ final, exit final = true ∧
    Scanner.Reaches mode (textFrom dialect index fragment.pieces) final lexemes

/-- The lexemes of a fragment that stands where a lexeme may begin. -/
def Writes (dialect : Dialect) (index : Nat) (fragment : Fragment) (lexemes : List Lexeme) : Prop :=
  fragment.Spells dialect Scanner.isPlain Scanner.isOutside index lexemes

/-- The lexemes of a fragment that can follow any text outside of quotes. -/
def Adds (dialect : Dialect) (index : Nat) (fragment : Fragment) (lexemes : List Lexeme) : Prop :=
  fragment.Spells dialect Scanner.isOutside Scanner.isOutside index lexemes

section Spells

variable {dialect : Dialect} {entry middle exit : Scanner.Mode → Bool} {index : Nat}

theorem Spells.append {first second : Fragment} {before after : List Lexeme}
    (toMiddle : first.Spells dialect entry middle index before)
    (toExit : second.Spells dialect middle exit (index + first.slots.length) after) :
    (first ++ second).Spells dialect entry exit index (before ++ after) := by
  intro mode entered
  obtain ⟨between, atMiddle, reaches⟩ := toMiddle mode entered
  obtain ⟨final, atExit, reachesOn⟩ := toExit between atMiddle
  refine ⟨final, atExit, ?_⟩
  rw [pieces_append, textFrom_append]
  exact reaches.append reachesOn

variable {fragment : Fragment} {lexemes : List Lexeme}

theorem Spells.weaken {narrow wide : Scanner.Mode → Bool} (spells : fragment.Spells dialect entry exit index lexemes)
    (entered : ∀ mode, narrow mode = true → entry mode = true)
    (left : ∀ mode, exit mode = true → wide mode = true) :
    fragment.Spells dialect narrow wide index lexemes := by
  intro mode isNarrow
  obtain ⟨final, atExit, reaches⟩ := spells mode (entered mode isNarrow)
  exact ⟨final, left final atExit, reaches⟩

theorem spells_empty (dialect : Dialect) (entry : Scanner.Mode → Bool) (index : Nat) :
    empty.Spells dialect entry entry index [] :=
  fun mode entered => ⟨mode, entered, [], rfl, (append_nil _).symm⟩

theorem adds_empty (dialect : Dialect) (index : Nat) : empty.Adds dialect index [] :=
  spells_empty dialect Scanner.isOutside index

theorem Adds.writes (adds : fragment.Adds dialect index lexemes) : fragment.Writes dialect index lexemes :=
  Spells.weaken adds Scanner.isOutside_of_isPlain fun _ outside => outside

/-- A fragment without slots whose text begins at a lexeme is described by its one run. -/
theorem spells_ofString {final : Scanner.Mode}
    (reaches : Scanner.Reaches .plain text.toList final lexemes) (atExit : exit final = true) :
    (ofString text).Spells dialect Scanner.isPlain exit index lexemes := by
  intro mode plain
  obtain rfl : mode = .plain := by cases mode <;> simp_all [Scanner.isPlain]
  refine ⟨final, atExit, ?_⟩
  simpa [ofString, textFrom] using reaches

theorem spells_separated {final : Scanner.Mode} (separated : Scanner.beginsSeparated text = true)
    (reaches : Scanner.Reaches .plain text.toList final lexemes) (atExit : exit final = true) :
    (ofString text).Spells dialect Scanner.isOutside exit index lexemes := by
  intro mode outside
  refine ⟨final, atExit, ?_⟩
  cases begins : text.toList with
  | nil => simp [Scanner.beginsSeparated, begins] at separated
  | cons c rest =>
    have separator : Scanner.isSeparator c = true := by simpa [Scanner.beginsSeparated, begins] using separated
    rw [begins] at reaches
    simpa [ofString, textFrom, begins] using reaches.of_plain outside separator

theorem Writes.lexemes_eq (writes : fragment.Writes dialect index lexemes) :
    Scanner.lexemes (textFrom dialect index fragment.pieces) = some lexemes := by
  obtain ⟨final, outside, reaches⟩ := writes .plain rfl
  exact reaches.lexemes_eq outside

/-- A text that begins like a word has a word as its first lexeme. -/
theorem Writes.exists_word {first : Char} (writes : fragment.Writes dialect index lexemes)
    (begins : textFrom dialect index fragment.pieces = first :: rest)
    (isRest : Identifier.isRest first = true) : ∃ word, lexemes.head? = some (.word word) := by
  have differs : ∀ mark, Identifier.isRest mark = false → first ≠ mark := by
    rintro mark no rfl
    rw [isRest] at no
    contradiction
  have entered : Scanner.step .plain first = ([], .word [first]) := by
    simp [Scanner.step, Scanner.enter, isRest, differs '\'' rfl, differs '"' rfl]
  obtain ⟨final, -, completed, ran, ended⟩ := writes .plain rfl
  obtain ⟨word, others, same⟩ := Scanner.exists_word_of_run [first] rest
  have ranOn : Scanner.run (.word [first]) rest = (completed, final) := by
    rw [begins, Scanner.run, entered] at ran
    exact ran
  rw [ranOn] at same
  refine ⟨word, ?_⟩
  change completed ++ Scanner.pending final = lexemes at ended
  rw [← ended, same]
  rfl

theorem writes_word (someText : text.toList ≠ []) (isRest : text.toList.all Identifier.isRest = true) :
    (ofString text).Writes dialect index [.word text.toList] := by
  obtain ⟨first, rest, same⟩ := exists_cons_of_ne_nil someText
  rw [same, all_cons, and_eq_true, all_eq_true] at isRest
  have reaches := Scanner.reaches_word isRest.1 isRest.2
  rw [← same] at reaches
  exact spells_ofString reaches rfl

theorem writes_name {name : String} (shaped : IsShaped name) :
    (ofString name).Writes dialect index [.word name.toList] := by
  refine writes_word ?_ shaped.isRest
  intro empty
  rw [IsShaped, empty] at shaped
  contradiction

theorem writes_toString (value : Nat) :
    (ofString (toString value)).Writes dialect index [.word (Nat.toDigits 10 value)] := by
  have digits : (toString value).toList = Nat.toDigits 10 value := by simp [toString, Nat.repr]
  rw [← digits]
  refine writes_word ?_ (isRest_toString value)
  rw [digits]
  exact Nat.toDigits_ne_nil

theorem writes_quoteName (name : String) : (ofString (quoteName name)).Writes dialect index [.quoted name.toList] :=
  spells_ofString (Scanner.reaches_quoteName name) rfl

theorem writes_quoteLiteral (value : String) :
    (ofString (Text.quoteLiteral value)).Writes dialect index [.literal value.toList] :=
  spells_ofString (Scanner.reaches_quoteLiteral value) rfl

end Spells

end Fragment

/-- A part of a printed fragment, with the lexemes that it is read as. -/
inductive Phrase where
  /-- A fixed text. -/
  | glue (text : String)
  /-- A fragment that stands where a lexeme may begin. -/
  | hole (fragment : Fragment) (lexemes : List Lexeme)
  /-- A fragment that may follow anything. -/
  | tail (fragment : Fragment) (lexemes : List Lexeme)

namespace Phrase

open Fragment

def fragment : Phrase → Fragment
  | .glue text => text
  | .hole fragment _ | .tail fragment _ => fragment

def lexemes : Phrase → List Lexeme
  | .glue text => (Scanner.run .plain text.toList).1 ++ Scanner.pending (Scanner.run .plain text.toList).2
  | .hole _ lexemes | .tail _ lexemes => lexemes

def concat (parts : List Phrase) : Fragment := parts.foldl (fun printed part => printed ++ part.fragment) .empty

/-- The fragments among the parts are read as their lexemes. -/
def Filled (dialect : Dialect) : Nat → List Phrase → Prop
  | _, [] => True
  | index, .glue _ :: rest => Filled dialect index rest
  | index, .hole fragment lexemes :: rest =>
      fragment.Writes dialect index lexemes ∧ Filled dialect (index + fragment.slots.length) rest
  | index, .tail fragment lexemes :: rest =>
      fragment.Adds dialect index lexemes ∧ Filled dialect (index + fragment.slots.length) rest

/-- The class of modes after a text: a lexeme may begin, or nothing but the end of quotes is sure. -/
def leaves (plain : Bool) : Scanner.Mode → Bool := if plain then Scanner.isPlain else Scanner.isOutside

/-- The fixed texts end outside of quotes and separate the fragments between them. -/
def fits : Bool → List Phrase → Bool
  | _, [] => true
  | plain, .hole _ _ :: rest => plain && fits false rest
  | _, .tail _ _ :: rest => fits false rest
  | plain, .glue text :: rest =>
      (plain || Scanner.beginsSeparated text) && Scanner.isOutside (Scanner.run .plain text.toList).2 &&
        fits (Scanner.isPlain (Scanner.run .plain text.toList).2) rest

variable {dialect : Dialect} {index : Nat}

theorem leaves_outside (plain : Bool) (mode : Scanner.Mode) (left : leaves plain mode = true) :
    Scanner.isOutside mode = true := by
  cases plain with
  | false => exact left
  | true => exact Scanner.isOutside_of_isPlain mode left

theorem spells_glue {plain : Bool} (separated : plain = true ∨ Scanner.beginsSeparated text = true)
    (outside : Scanner.isOutside (Scanner.run .plain text.toList).2 = true) :
    Fragment.Spells dialect (leaves plain) (leaves (Scanner.isPlain (Scanner.run .plain text.toList).2)) index text
      (glue text).lexemes := by
  have reaches : Scanner.Reaches .plain text.toList (Scanner.run .plain text.toList).2
      (glue text).lexemes := ⟨_, rfl, rfl⟩
  have left : leaves (Scanner.isPlain (Scanner.run .plain text.toList).2)
      (Scanner.run .plain text.toList).2 = true := by
    cases known : Scanner.isPlain (Scanner.run .plain text.toList).2 with
    | true => exact known
    | false => exact outside
  cases plain with
  | true => exact spells_ofString reaches left
  | false => exact spells_separated (by simpa using separated) reaches left

/-- Parts whose fixed texts fit together add their lexemes to those of whatever came before. -/
theorem foldl_spells {parts : List Phrase} {entry : Scanner.Mode → Bool} {plain : Bool}
    {printed : Fragment} {before : List Lexeme}
    (spells : printed.Spells dialect entry (leaves plain) index before)
    (fit : fits plain parts = true)
    (filled : Filled dialect (index + printed.slots.length) parts) :
    (parts.foldl (fun printed part => printed ++ part.fragment) printed).Spells dialect entry
      Scanner.isOutside index (before ++ parts.flatMap lexemes) := by
  induction parts generalizing printed plain before with
  | nil =>
    rw [flatMap_nil, append_nil]
    exact spells.weaken (fun _ entered => entered) (leaves_outside plain)
  | cons part rest ih =>
    rw [flatMap_cons, ← append_assoc]
    cases part with
    | glue text =>
      simp only [fits, and_eq_true, or_eq_true] at fit
      have further := spells.append (spells_glue fit.1.1 fit.1.2)
      refine ih further fit.2 ?_
      rw [slots_append, length_append]
      exact filled
    | hole fragment lexemes =>
      simp only [fits, and_eq_true] at fit
      obtain ⟨rfl, fit⟩ := fit
      have further : (printed ++ fragment).Spells dialect entry (leaves false) index _ := spells.append filled.1
      refine ih further fit ?_
      rw [slots_append, length_append, ← Nat.add_assoc]
      exact filled.2
    | tail fragment lexemes =>
      have outside := spells.weaken (fun _ entered => entered) (leaves_outside plain)
      have further : (printed ++ fragment).Spells dialect entry (leaves false) index _ := outside.append filled.1
      refine ih further fit ?_
      rw [slots_append, length_append, ← Nat.add_assoc]
      exact filled.2

theorem writes_concat (parts : List Phrase) {lexemes : List Lexeme} (fit : fits true parts = true)
    (same : parts.flatMap Phrase.lexemes = lexemes) (filled : Filled dialect index parts) :
    (concat parts).Writes dialect index lexemes := by
  subst same
  exact foldl_spells (spells_empty dialect (leaves true) index) fit filled

theorem adds_concat (parts : List Phrase) {lexemes : List Lexeme} (fit : fits false parts = true)
    (same : parts.flatMap Phrase.lexemes = lexemes) (filled : Filled dialect index parts) :
    (concat parts).Adds dialect index lexemes := by
  subst same
  exact foldl_spells (spells_empty dialect (leaves false) index) fit filled

end Phrase

end GraphSql
