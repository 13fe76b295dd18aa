import GraphSql.Proofs.Naming
import GraphSql.Proofs.Walks.Cycles

namespace GraphSql

open Lexeme

namespace Fragment

/-- The lexemes of the text. -/
def lexemes (dialect : Dialect) (fragment : Fragment) : Option (List Lexeme) :=
  Scanner.lexemes (fragment.text dialect).toList

theorem Writes.lexemes_text {dialect : Dialect} {fragment : Fragment} {lexemes : List Lexeme}
    (writes : fragment.Writes dialect 1 lexemes) : fragment.lexemes dialect = some lexemes := by
  rw [Fragment.lexemes, text, String.toList_ofList, writes.lexemes_eq]

end Fragment

namespace Lexeme

/-- The text that literals give when they are put together. -/
def concatenation : List Lexeme → Option String
  | [.literal text] => some (String.ofList text)
  | .literal text :: .mark '|' :: .mark '|' :: rest => (concatenation rest).map (String.ofList text ++ ·)
  | _ => none

/-- The answer of a test for the place of a text in another to be zero, which is that it has none. -/
def absence : List Lexeme → Option Bool
  | .word function :: .mark '(' :: .literal text :: .mark ',' :: rest =>
      if function = "instr".toList ∧ rest.drop (rest.length - 3) = [.mark ')', .mark '=', .word ['0']] then
        (concatenation (rest.take (rest.length - 3))).map fun part => !decide (part.toList <:+: text)
      else none
  | _ => none

end Lexeme

namespace Dialect

open Fragment

/-- The visited path after the ids, by the expressions that begin and extend it. -/
def visitedPath (first : String) (others : List String) : Option String :=
  others.foldl (fun path id => path.bind fun path =>
      ((sqlite.pathExtend (.ofLiteral path) (.ofLiteral id)).lexemes .sqlite).bind Lexeme.concatenation)
    (((sqlite.pathStart (.ofLiteral first)).lexemes .sqlite).bind Lexeme.concatenation)

/-- The id is not on the visited path, by the expression that looks it up. -/
def isOffPath (path id : String) : Option Bool :=
  ((sqlite.offPath (.ofLiteral path) (.ofLiteral id)).lexemes .sqlite).bind Lexeme.absence

theorem lexemes_pathStart (id : String) : (sqlite.pathStart (.ofLiteral id)).lexemes .sqlite =
      some [.literal ['|'], .mark '|', .mark '|', .literal id.toList, .mark '|', .mark '|', .literal ['|']] :=
  Writes.lexemes_text (Phrase.writes_concat
    [.glue "'|' || ", .hole (.ofLiteral id) [.literal id.toList], .glue " || '|'"] rfl rfl
    ⟨writes_quoteLiteral id, trivial⟩)

theorem lexemes_pathExtend (path id : String) : (sqlite.pathExtend (.ofLiteral path) (.ofLiteral id)).lexemes .sqlite =
      some [.literal path.toList, .mark '|', .mark '|', .literal id.toList, .mark '|', .mark '|', .literal ['|']] :=
  Writes.lexemes_text (Phrase.writes_concat [.hole (.ofLiteral path) [.literal path.toList], .glue " || ",
      .hole (.ofLiteral id) [.literal id.toList], .glue " || '|'"] rfl rfl
    ⟨writes_quoteLiteral path, writes_quoteLiteral id, trivial⟩)

theorem isOffPath_eq (path id : String) :
    isOffPath path id = some (!decide (("|" ++ id ++ "|").toList <:+: path.toList)) := by
  have read : (sqlite.offPath (.ofLiteral path) (.ofLiteral id)).lexemes .sqlite =
      some [.word "instr".toList, .mark '(', .literal path.toList, .mark ',', .literal ['|'],
        .mark '|', .mark '|', .literal id.toList, .mark '|', .mark '|', .literal ['|'], .mark ')',
        .mark '=', .word ['0']] :=
    Writes.lexemes_text (Phrase.writes_concat
      [.glue "instr(", .hole (.ofLiteral path) [.literal path.toList], .glue ", '|' || ",
        .hole (.ofLiteral id) [.literal id.toList], .glue " || '|') = 0"] rfl rfl
      ⟨writes_quoteLiteral path, writes_quoteLiteral id, trivial⟩)
  rw [isOffPath, read]
  simp [absence, concatenation]

/-- The expressions put the ids between bars. -/
theorem visitedPath_eq (first : String) (others : List String) :
    visitedPath first others = some (barred (first :: others)) := by
  have start : ((sqlite.pathStart (.ofLiteral first)).lexemes .sqlite).bind concatenation =
      some ("|" ++ first ++ "|") := by
    rw [lexemes_pathStart]
    simp [concatenation, String.append_assoc]
  rw [visitedPath, start, barred, List.foldl_cons]
  generalize "|" ++ first ++ "|" = path
  induction others generalizing path with
  | nil => rfl
  | cons id rest ih =>
    rw [List.foldl_cons, List.foldl_cons, Option.bind_some, lexemes_pathExtend]
    simpa [concatenation, String.append_assoc] using ih (path ++ id ++ "|")

/-- The visited path is built for any ids, and an id on it is always found. Where no id has a bar in
it, the test holds of exactly the ids that are not on the path. -/
theorem isOffPath_visitedPath (first : String) (others : List String) (id : String) :
    ∃ path, visitedPath first others = some path ∧
      (isOffPath path id = some true → id ∉ first :: others) ∧
      ((∀ other ∈ id :: first :: others, '|' ∉ other.toList) →
        (isOffPath path id = some true ↔ id ∉ first :: others)) := by
  have answer : isOffPath (barred (first :: others)) id = some true ↔
      ¬ sqlite.Visits (first :: others) id := by
    simp [isOffPath_eq, Visits]
  have passed (off : isOffPath (barred (first :: others)) id = some true) :
      id ∉ first :: others :=
    fun mem => answer.mp off (visits_of_mem mem)
  exact ⟨_, visitedPath_eq first others, passed, fun free =>
    ⟨passed, fun unlisted => answer.mpr fun visits => unlisted (mem_of_visits (fun _ => free) visits)⟩⟩

theorem isOffPath_visitedPath_three :
    (∀ other ∈ ["c", "a", "b"], '|' ∉ other.toList) ∧
      ∃ path, visitedPath "a" ["b"] = some path ∧
        (isOffPath path "c" = some true ↔ "c" ∉ ["a", "b"]) := by
  have free : ∀ other ∈ ["c", "a", "b"], '|' ∉ other.toList := by decide
  obtain ⟨path, built, -, exact⟩ := isOffPath_visitedPath "a" ["b"] "c"
  exact ⟨free, path, built, exact free⟩

/-- An id with a bar in it hides the ids that its parts are. -/
theorem isOffPath_bar :
    "a" ∉ ["a|b"] ∧ ∃ path, visitedPath "a|b" [] = some path ∧ isOffPath path "a" = some false := by
  refine ⟨by decide, _, visitedPath_eq "a|b" [], ?_⟩
  rw [isOffPath_eq]
  decide

end Dialect

end GraphSql
