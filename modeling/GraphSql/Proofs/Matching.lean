import GraphSql.Pattern
import Mathlib.Data.List.Forall2
import Mathlib.Data.List.Infix

namespace GraphSql

open List

namespace Pattern

/-- A part of a pattern. -/
inductive Part where
  /-- Any characters, as many as there are. -/
  | run
  /-- One character that passes the test. -/
  | one (test : Char → Bool)

/-- The parts match the whole text. A run is tried before every rest of the text. -/
def isMatch : List Part → List Char → Bool
  | [], text => text.isEmpty
  | .run :: rest, text => text.tails.any (isMatch rest)
  | .one _ :: _, [] => false
  | .one test :: rest, c :: text => test c && isMatch rest text

/-- The parts of a LIKE pattern with backslash as its escape. Letters match as they are compared. -/
def likeParts (same : Char → Char → Bool) : List Char → List Part
  | [] => []
  | '%' :: rest => .run :: likeParts same rest
  | '_' :: rest => .one (fun _ => true) :: likeParts same rest
  | ['\\'] => [.one (same '\\')]
  | '\\' :: c :: rest => .one (same c) :: likeParts same rest
  | c :: rest => .one (same c) :: likeParts same rest

/-- Where the reader of a GLOB pattern is. -/
inductive GlobMode where
  | plain
  /-- After the bracket that opens a class, and the caret that negates it. -/
  | opened (negated : Bool)
  /-- After members of a class, the last of which may begin a range. -/
  | members (negated : Bool) (test : Char → Bool) (last : Option Char)
  /-- After a hyphen, which makes a range unless the class ends. -/
  | range (negated : Bool) (test : Char → Bool) (least : Char)

/-- The parts of a GLOB pattern. The first bracket of a class is a member, and a class that is not
closed matches nothing. -/
def globParts : GlobMode → List Char → List Part
  | .plain, [] => []
  | .plain, '*' :: rest => .run :: globParts .plain rest
  | .plain, '?' :: rest => .one (fun _ => true) :: globParts .plain rest
  | .plain, '[' :: rest => globParts (.opened false) rest
  | .plain, c :: rest => .one (c == ·) :: globParts .plain rest
  | .opened false, '^' :: rest => globParts (.opened true) rest
  | .opened negated, c :: rest => globParts (.members negated (c == ·) (if c = ']' then none else some c)) rest
  | .members negated test _, ']' :: rest => .one (fun c => test c != negated) :: globParts .plain rest
  | .members negated test (some least), '-' :: rest => globParts (.range negated test least) rest
  | .members negated test _, c :: rest =>
      globParts (.members negated (fun other => test other || c == other) (some c)) rest
  | .range negated test _, ']' :: rest => .one (fun c => (test c || '-' == c) != negated) :: globParts .plain rest
  | .range negated test least, greatest :: rest =>
      globParts (.members negated (fun c => test c || least ≤ c && c ≤ greatest) none) rest
  | _, [] => [.one fun _ => false]

example : ["]", "b", "-", "a-", "é"].map (isMatch (globParts .plain "[^]a-c-]".toList) ·.toList) =
    [false, false, false, false, true] := by
  decide

/-- A literal of a GLOB pattern matches its character and no other. -/
theorem globParts_globLiteral (c : Char) (rest : List Char) :
    globParts .plain (globLiteral c ++ rest) = .one (c == ·) :: globParts .plain rest := by
  unfold globLiteral
  split
  · next special =>
    simp only [Bool.or_eq_true, decide_eq_true_eq] at special
    rcases special with ((rfl | rfl) | rfl) | rfl <;> simp [globParts]
  · next ordinary =>
    simp only [Bool.or_eq_true, decide_eq_true_eq, not_or] at ordinary
    obtain ⟨⟨⟨notRun, notOne⟩, notClass⟩, -⟩ := ordinary
    rw [singleton_append, globParts] <;> simp_all

theorem globParts_likeToGlob (pattern : List Char) :
    globParts .plain (likeToGlob pattern) = likeParts (· == ·) pattern := by
  fun_induction likeToGlob pattern with
  | case1 => rfl
  | case2 rest ih | case3 rest ih => simp [globParts, likeParts, ih]
  | case4 =>
    rw [← append_nil (globLiteral _), globParts_globLiteral]
    rfl
  | case5 c rest ih | case6 c rest _ _ _ _ ih => rw [globParts_globLiteral, ih, likeParts] <;> simp_all

/-- The GLOB pattern that is made of a LIKE pattern matches the same texts. -/
theorem likeToGlob_exact (pattern text : List Char) :
    isMatch (globParts .plain (likeToGlob pattern)) text =
      isMatch (likeParts (· == ·) pattern) text := by
  rw [globParts_likeToGlob]

variable (same : Char → Char → Bool)

/-- An escaped value is read as its characters. -/
theorem likeParts_escapeLike (value rest : List Char) : likeParts same (escapeLike value ++ rest) =
      value.map (fun c => .one (same c)) ++ likeParts same rest := by
  induction value with
  | nil => rfl
  | cons c others ih =>
    rw [escapeLike, flatMap_cons, append_assoc, ← escapeLike, map_cons, cons_append, ← ih]
    split
    · rfl
    · next ordinary =>
      simp only [Bool.or_eq_true, decide_eq_true_eq, not_or] at ordinary
      rw [singleton_append, likeParts] <;> simp_all

/-- The characters of a value match a part of the text, and what follows them matches the rest. -/
theorem isMatch_value (value : List Char) (parts : List Part) (text : List Char) :
    isMatch (value.map (fun c => .one (same c)) ++ parts) text = true ↔
      ∃ found rest, text = found ++ rest ∧ List.Forall₂ (same · ·) value found ∧ isMatch parts rest = true := by
  induction value generalizing text with
  | nil => simp
  | cons c others ih =>
    cases text with
    | nil => simp [isMatch]
    | cons first text =>
      simp only [map_cons, cons_append, isMatch, Bool.and_eq_true, ih]
      constructor
      · rintro ⟨alike, found, rest, rfl, others, matched⟩
        exact ⟨first :: found, rest, rfl, .cons alike others, matched⟩
      · rintro ⟨found, rest, joined, _ | ⟨alike, others⟩, matched⟩
        obtain ⟨rfl, rfl⟩ := cons.inj joined
        exact ⟨alike, _, rest, rfl, others, matched⟩

theorem isMatch_run (parts : List Part) (text : List Char) : isMatch (.run :: parts) text = true ↔
      ∃ before rest, text = before ++ rest ∧ isMatch parts rest = true := by
  simp only [isMatch, any_eq_true, mem_tails]
  constructor
  · rintro ⟨rest, ⟨before, rfl⟩, matched⟩
    exact ⟨before, rest, rfl, matched⟩
  · rintro ⟨before, rest, rfl, matched⟩
    exact ⟨rest, suffix_append before rest, matched⟩

end Pattern

namespace Transform

/-- The place in a text where the operator of a transform looks for a value. -/
def Places : Transform → List Char → List Char → Prop
  | .contains, found, text => found <:+: text
  | .startsWith, found, text => found <+: text
  | .endsWith, found, text => found <:+ text
  | _, found, text => found = text

/-- The pattern that is made of a value matches the texts that have the value in its place, up to the
way characters are compared and whatever wildcards the value holds. -/
theorem likeParts_exact (same : Char → Char → Bool) (value : String) (text : List Char) :
    ∀ transform ∈ [contains, startsWith, endsWith, escaped],
      ∃ pattern, transform.apply (.string value) = some (.string pattern) ∧
        (Pattern.isMatch (Pattern.likeParts same pattern.toList) text = true ↔
          ∃ found, List.Forall₂ (same · ·) value.toList found ∧ transform.Places found text) := by
  intro transform mem
  refine ⟨String.ofList (transform.onText value.toList), ?_, ?_⟩
  · cases transform <;> simp [apply] at mem ⊢
  rw [String.toList_ofList]
  have exact := Pattern.likeParts_escapeLike same value.toList []
  rw [List.append_nil] at exact
  cases transform <;> simp only [onText, Pattern.likeParts, Pattern.likeParts_escapeLike, exact,
    Pattern.isMatch_run, Pattern.isMatch_value, Places]
  case contains =>
    constructor
    · rintro ⟨before, _, rfl, found, rest, rfl, alike, -⟩
      exact ⟨found, alike, before, rest, List.append_assoc ..⟩
    · rintro ⟨found, alike, before, rest, rfl⟩
      exact ⟨before, _, List.append_assoc .., found, rest, rfl, alike, rest, [], by simp, rfl⟩
  case startsWith =>
    constructor
    · rintro ⟨found, rest, rfl, alike, -⟩
      exact ⟨found, alike, rest, rfl⟩
    · rintro ⟨found, alike, rest, rfl⟩
      exact ⟨found, rest, rfl, alike, rest, [], by simp, rfl⟩
  case endsWith =>
    constructor
    · rintro ⟨before, _, rfl, found, rest, rfl, alike, ended⟩
      exact ⟨found, alike, before, by simp_all [Pattern.isMatch]⟩
    · rintro ⟨found, alike, before, rfl⟩
      exact ⟨before, found, rfl, found, [], by simp, alike, rfl⟩
  case escaped =>
    constructor
    · rintro ⟨found, rest, rfl, alike, ended⟩
      exact ⟨found, alike, by simp_all [Pattern.isMatch]⟩
    · rintro ⟨found, alike, rfl⟩
      exact ⟨found, [], by simp, alike, rfl⟩
  all_goals simp at mem

theorem likeParts_exact_wildcard :
    contains ∈ [contains, startsWith, endsWith, escaped] ∧
      ∃ pattern, contains.apply (.string "b%") = some (.string pattern) ∧
        (Pattern.isMatch (Pattern.likeParts (·.toLower == ·.toLower) pattern.toList)
            "aB%c".toList = true ↔
          ∃ found, List.Forall₂ (·.toLower == ·.toLower) "b%".toList found ∧
            contains.Places found "aB%c".toList) :=
  ⟨.head _, likeParts_exact (·.toLower == ·.toLower) "b%" "aB%c".toList contains (.head _)⟩

end Transform

end GraphSql
