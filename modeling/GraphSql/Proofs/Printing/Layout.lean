import GraphSql.Proofs.Lexeme

namespace GraphSql

open Fragment Lexeme List

namespace Lexeme

/-- Keywords are read alike in capital and in small letters. -/
def isWord (keyword : String) : Lexeme → Bool
  | .word text => text.map Char.toUpper == keyword.toList
  | .quoted _ | .literal _ | .mark _ => false

theorem isWord_eq_false {keyword : String} {text : List Char} {c : Char} (mem : c ∈ text)
    (absent : c.toUpper ∉ keyword.toList) : isWord keyword (.word text) = false := by
  rw [isWord, beq_eq_false_iff_ne]
  intro same
  rw [← same] at absent
  exact absent (mem_map_of_mem mem)

theorem toUpper_of_isDigit {c : Char} (digit : c.isDigit = true) : c.toUpper = c := by
  unfold Char.toUpper
  rw [dif_neg]
  simp only [Char.isDigit, Bool.and_eq_true, decide_eq_true_eq, UInt32.le_iff_toNat_le, ge_iff_le] at *
  have nine : '9'.val.toNat = 57 := rfl
  have lower : 'a'.val.toNat = 97 := rfl
  omega

theorem isWord_toDigits {keyword : String} (letters : (keyword.toList.all fun c => !c.isDigit) = true)
    (value : Nat) : isWord keyword (.word (Nat.toDigits 10 value)) = false := by
  obtain ⟨first, rest, same⟩ := exists_cons_of_ne_nil (@Nat.toDigits_ne_nil value 10)
  have mem : first ∈ Nat.toDigits 10 value := by simp [same]
  have digit := Nat.isDigit_of_mem_toDigits (by decide) (by decide) mem
  refine isWord_eq_false mem fun inside => ?_
  rw [toUpper_of_isDigit digit] at inside
  have letter := all_eq_true.mp letters first inside
  rw [digit] at letter
  contradiction

/-- The words that take conditions or bounds on both sides. -/
def isJoining (lexeme : Lexeme) : Bool := ["AND", "OR", "BETWEEN"].any fun keyword => lexeme.isWord keyword

theorem isJoining_eq_false {text : List Char} {c : Char} (member : c ∈ text)
    (absent : ∀ keyword ∈ ["AND", "OR", "BETWEEN"], c.toUpper ∉ keyword.toList) :
    isJoining (.word text) = false := by
  rw [isJoining, any_eq_false]
  intro keyword mem
  rw [isWord_eq_false member (absent keyword mem)]
  exact Bool.false_ne_true

/-- Reads a lexeme at a depth of parentheses, inside of a range or not. Between joining words, a text that
is free has no such words outside of parentheses but the BETWEEN of a range and then its AND. -/
def read (free : Bool) (site : Nat × Bool) (lexeme : Lexeme) : Option (Nat × Bool) := do
  let depth ← depthFrom site.1 [lexeme]
  if site.1 == 0 && lexeme.isJoining && free then
    if lexeme.isWord (if site.2 then "AND" else "BETWEEN") then some (depth, !site.2) else none
  else some (depth, site.2)

section Read

variable {free : Bool} {lexemes : List Lexeme}

theorem depthFrom_of_read {lexeme : Lexeme} {before after : Nat × Bool}
    (reads : read free before lexeme = some after) : depthFrom before.1 [lexeme] = some after.1 := by
  obtain ⟨depth, reached, rest⟩ := Option.bind_eq_some_iff.mp reads
  rw [reached]
  split_ifs at rest <;> cases rest <;> rfl

theorem depthFrom_of_reads {before after : Nat × Bool} (reads : lexemes.foldlM (read free) before = some after) :
    depthFrom before.1 lexemes = some after.1 := by
  induction lexemes generalizing before with
  | nil =>
    cases reads
    rfl
  | cons lexeme rest ih =>
    obtain ⟨middle, first, others⟩ := Option.bind_eq_some_iff.mp reads
    rw [← singleton_append, depthFrom_append, depthFrom_of_read first]
    exact ih others

theorem reads_singleton {lexeme : Lexeme} (flat : lexeme.token? = none)
    (alone : free = true → lexeme.isJoining = false) (ranges : Bool) :
    [lexeme].foldlM (read free) (0, ranges) = some (0, ranges) := by
  have ignored : (lexeme.isJoining && free) = false := by
    cases free with
    | false => exact Bool.and_false _
    | true => rw [alone rfl, Bool.false_and]
  simp [read, depthFrom, flat, Token.depthFrom, ignored]

/-- Inside of parentheses every text is free. -/
theorem reads_inside {before after depth : Nat} (reached : depthFrom before lexemes = some after)
    (inside : depth = 0 → free = false) (ranges : Bool) :
    lexemes.foldlM (read free) (depth + before, ranges) = some (depth + after, ranges) := by
  induction lexemes generalizing before with
  | nil =>
    cases reached
    rfl
  | cons lexeme rest ih =>
    rw [← singleton_append, depthFrom_append] at reached
    obtain ⟨middle, first, others⟩ := Option.bind_eq_some_iff.mp reached
    have ignored : (depth + before == 0 && lexeme.isJoining && free) = false := by
      cases depth with
      | zero => rw [inside rfl, Bool.and_false]
      | succ depth => simp [Nat.add_right_comm]
    have passes : read free (depth + before, ranges) lexeme = some (depth + middle, ranges) := by
      simp [read, show depthFrom _ [lexeme] = _ from Token.depthFrom_add first depth, ignored]
    rw [foldlM_cons, passes]
    exact ih others

end Read

/-- The lexemes lead from one site to another, and the placeholders are those given. -/
structure Leads (dialect : Dialect) (free : Bool) (before after : Nat × Bool) (marks : List (List Char))
    (lexemes : List Lexeme) : Prop where
  reads : lexemes.foldlM (read free) before = some after
  marks : (lexemes.flatMap (tokens dialect)).filterMap Token.mark? = marks

end Lexeme

variable {dialect : Dialect} {free : Bool} {before between after : Nat × Bool} {marks : List (List Char)}

theorem Lexeme.Leads.append {others : List (List Char)} {first second : List Lexeme}
    (leads : Leads dialect free before between marks first)
    (leadsOn : Leads dialect free between after others second) :
    Leads dialect free before after (marks ++ others) (first ++ second) where
  reads := by
    rw [foldlM_append, leads.reads]
    exact leadsOn.reads
  marks := by rw [flatMap_append, filterMap_append, leads.marks, leadsOn.marks]

namespace Fragment

/-- From any mode of one class, the fragment takes the scanner to a mode of another class. Its
lexemes lead from one site to another, and its placeholders are those of its slots, in order. -/
def Scans (dialect : Dialect) (free : Bool) (entry exit : Scanner.Mode → Bool) (before after : Nat × Bool)
    (fragment : Fragment) : Prop :=
  ∀ index, ∃ lexemes, fragment.Spells dialect entry exit index lexemes ∧
    Leads dialect free before after ((range' index fragment.slots.length).map dialect.placeholder) lexemes

/-- The fragment can stand where a lexeme may begin, inside of a range or not. -/
def LexesIn (dialect : Dialect) (free ranges : Bool) (fragment : Fragment) : Prop :=
  fragment.Scans dialect free Scanner.isPlain Scanner.isOutside (0, ranges) (0, ranges)

/-- The fragment can stand where a lexeme may begin. -/
abbrev Lexes (dialect : Dialect) (fragment : Fragment) : Prop := fragment.LexesIn dialect false false

/-- The fragment can follow any text that is outside of quotes. -/
def Continues (dialect : Dialect) (fragment : Fragment) : Prop :=
  fragment.Scans dialect false Scanner.isOutside Scanner.isOutside (0, false) (0, false)

section Scans

variable {entry middle exit : Scanner.Mode → Bool} {first second fragment : Fragment} {ranges : Bool}

theorem Scans.append (toMiddle : first.Scans dialect free entry middle before between)
    (toExit : second.Scans dialect free middle exit between after) :
    (first ++ second).Scans dialect free entry exit before after := by
  intro index
  obtain ⟨begun, spells, leads⟩ := toMiddle index
  obtain ⟨ended, spellsOn, leadsOn⟩ := toExit (index + first.slots.length)
  refine ⟨begun ++ ended, spells.append spellsOn, ?_⟩
  rw [slots_append, length_append, ← range'_append_1, map_append]
  exact leads.append leadsOn

theorem Scans.weaken {narrow wide : Scanner.Mode → Bool} (scans : fragment.Scans dialect free entry exit before after)
    (entered : ∀ mode, narrow mode = true → entry mode = true)
    (left : ∀ mode, exit mode = true → wide mode = true) :
    fragment.Scans dialect free narrow wide before after := by
  intro index
  obtain ⟨lexemes, spells, leads⟩ := scans index
  exact ⟨lexemes, spells.weaken entered left, leads⟩

/-- Parentheses that are open around a fragment stay open. -/
theorem Scans.inside {other : Bool} (scans : fragment.Scans dialect other entry exit (0, ranges) (0, ranges))
    {depth : Nat} (inside : depth = 0 → free = false) (opened : Bool) :
    fragment.Scans dialect free entry exit (depth, opened) (depth, opened) := by
  intro index
  obtain ⟨lexemes, spells, leads⟩ := scans index
  exact ⟨lexemes, spells, reads_inside (depthFrom_of_reads leads.reads) inside opened, leads.marks⟩

theorem LexesIn.lexes (lexes : fragment.LexesIn dialect free ranges) : fragment.Lexes dialect :=
  Scans.inside lexes (fun _ => rfl) false

theorem Continues.lexes (continues : fragment.Continues dialect) : fragment.Lexes dialect :=
  Scans.weaken continues Scanner.isOutside_of_isPlain fun _ outside => outside

theorem scans_empty (dialect : Dialect) (entry : Scanner.Mode → Bool) (site : Nat × Bool) :
    empty.Scans dialect free entry entry site site :=
  fun index => ⟨[], spells_empty dialect entry index, rfl, rfl⟩

theorem continues_empty (dialect : Dialect) : empty.Continues dialect := scans_empty dialect Scanner.isOutside _

/-- Only the text and the number of slots count, not the division into pieces. -/
theorem Scans.of_eq_text {printed : Fragment} (scans : printed.Scans dialect free entry exit before after)
    (text : ∀ index, textFrom dialect index fragment.pieces = textFrom dialect index printed.pieces)
    (slots : fragment.slots.length = printed.slots.length) :
    fragment.Scans dialect free entry exit before after := by
  intro index
  obtain ⟨lexemes, spells, leads⟩ := scans index
  refine ⟨lexemes, ?_, slots ▸ leads⟩
  rwa [Spells, text]

theorem continues_blank (dialect : Dialect) : (ofString "").Continues dialect :=
  Scans.of_eq_text (continues_empty dialect) (by simp [ofString, empty, textFrom]) rfl

theorem lexes_ofString_append {first second : String}
    (lexes : (ofString first ++ ofString second).LexesIn dialect free ranges) :
    (ofString (first ++ second)).LexesIn dialect free ranges :=
  Scans.of_eq_text lexes (by simp [pieces_append, ofString, textFrom]) rfl

/-- The lexemes of a fragment that keeps its text in order have balanced parentheses. -/
theorem LexesIn.exists_writes (lexes : fragment.LexesIn dialect free ranges) (index : Nat) :
    ∃ lexemes, fragment.Writes dialect index lexemes ∧ Balanced lexemes := by
  obtain ⟨lexemes, writes, leads⟩ := lexes index
  exact ⟨lexemes, writes, depthFrom_of_reads leads.reads⟩

end Scans

end Fragment

/-- A part of a printed fragment. -/
inductive Segment where
  /-- A fixed text. -/
  | glue (text : String)
  /-- A fragment that stands where a lexeme may begin. -/
  | hole (fragment : Fragment)
  /-- A fragment that may follow anything. -/
  | tail (fragment : Fragment)

namespace Segment

def fragment : Segment → Fragment
  | .glue text => text
  | .hole fragment | .tail fragment => fragment

/-- The parts in a row. -/
def concat (parts : List Segment) : Fragment := parts.foldl (fun printed part => printed ++ part.fragment) .empty

/-- The fragments among the parts keep their text in order. -/
def Filled (dialect : Dialect) : List Segment → Prop
  | [] => True
  | .glue _ :: rest => Filled dialect rest
  | .hole fragment :: rest => fragment.Lexes dialect ∧ Filled dialect rest
  | .tail fragment :: rest => fragment.Continues dialect ∧ Filled dialect rest

/-- Outside of the parentheses around it, a fragment is free if it has to be. -/
def Fills (dialect : Dialect) (free : Bool) (fragment : Fragment) : Nat × Bool → Prop
  | (0, ranges) => fragment.LexesIn dialect free ranges
  | (_ + 1, _) => fragment.Lexes dialect

/-- The fragments among the parts keep their text in order at the sites where they stand. -/
def FilledFrom (dialect : Dialect) (free : Bool) : Nat × Bool → List Segment → Prop
  | _, [] => True
  | site, .glue text :: rest =>
      FilledFrom dialect free (((Phrase.glue text).lexemes.foldlM (read free) site).getD site) rest
  | site, .hole fragment :: rest => Fills dialect free fragment site ∧ FilledFrom dialect free site rest
  | site, .tail fragment :: rest =>
      fragment.Scans dialect free Scanner.isOutside Scanner.isOutside site site ∧ FilledFrom dialect free site rest

/-- The site after fixed texts that fit together: they end outside of quotes, close no more than is open,
have no placeholders, and separate the fragments between them. -/
def fits (dialect : Dialect) (free : Bool) : Bool → Nat × Bool → List Segment → Option (Nat × Bool)
  | _, site, [] => some site
  | plain, site, .hole _ :: rest => if plain then fits dialect free false site rest else none
  | _, site, .tail _ :: rest => fits dialect free false site rest
  | plain, site, .glue text :: rest =>
      let lexemes := (Phrase.glue text).lexemes
      if (plain || Scanner.beginsSeparated text) && Scanner.isOutside (Scanner.run .plain text.toList).2 &&
          ((lexemes.flatMap (tokens dialect)).filterMap Token.mark?).isEmpty then
        (lexemes.foldlM (read free) site).bind
          (fits dialect free (Scanner.isPlain (Scanner.run .plain text.toList).2) · rest)
      else none

/-- The fixed texts fit together and close what they open. -/
abbrev Fit (dialect : Dialect) (plain : Bool) (parts : List Segment) : Prop :=
  fits dialect false plain (0, false) parts = some (0, false)

variable {parts : List Segment}

theorem Fills.scans {fragment : Fragment} {site : Nat × Bool} (fills : Fills dialect free fragment site) :
    fragment.Scans dialect free Scanner.isPlain Scanner.isOutside site site := by
  obtain ⟨_ | depth, ranges⟩ := site
  · exact fills
  · exact Scans.inside fills (by simp) ranges

/-- Parts whose fixed texts fit together take the scanner on from whatever was printed before. -/
theorem foldl_scans {entry : Scanner.Mode → Bool} {plain : Bool} {printed : Fragment}
    (scans : printed.Scans dialect free entry (Phrase.leaves plain) before between)
    (fit : fits dialect free plain between parts = some after) (filled : FilledFrom dialect free between parts) :
    (parts.foldl (fun printed part => printed ++ part.fragment) printed).Scans dialect free entry
      Scanner.isOutside before after := by
  induction parts generalizing printed plain between with
  | nil =>
    cases fit
    exact scans.weaken (fun _ entered => entered) (Phrase.leaves_outside plain)
  | cons part rest ih =>
    cases part with
    | glue text =>
      simp only [fits] at fit
      split at fit
      · next fitting =>
        simp only [Bool.and_eq_true, Bool.or_eq_true, List.isEmpty_iff] at fitting
        obtain ⟨⟨separated, outside⟩, unmarked⟩ := fitting
        obtain ⟨reached, reads, further⟩ := Option.bind_eq_some_iff.mp fit
        have glued : Fragment.Scans dialect free _ _ between reached text :=
          fun _ => ⟨_, Phrase.spells_glue separated outside, reads, unmarked⟩
        rw [FilledFrom, reads] at filled
        exact ih (scans.append glued) further filled
      · contradiction
    | hole fragment =>
      cases plain with
      | false => contradiction
      | true =>
        have printed : (printed ++ fragment).Scans dialect free entry (Phrase.leaves false) before between :=
          scans.append filled.1.scans
        exact ih printed fit filled.2
    | tail fragment =>
      have outside := scans.weaken (fun _ entered => entered) (Phrase.leaves_outside plain)
      have printed : (printed ++ fragment).Scans dialect free entry (Phrase.leaves false) before between :=
        outside.append filled.1
      exact ih printed fit filled.2

theorem lexesIn_concat (parts : List Segment) {ranges : Bool}
    (fit : fits dialect free true (0, ranges) parts = some (0, ranges))
    (filled : FilledFrom dialect free (0, ranges) parts) : (concat parts).LexesIn dialect free ranges :=
  foldl_scans (show empty.Scans dialect free _ (Phrase.leaves true) _ _ from
    scans_empty dialect Scanner.isPlain _) fit filled

theorem Filled.from (filled : Filled dialect parts) (site : Nat × Bool) : FilledFrom dialect false site parts := by
  induction parts generalizing site with
  | nil => trivial
  | cons part rest ih =>
    cases part with
    | glue => exact ih filled _
    | hole =>
      refine ⟨?_, ih filled.2 _⟩
      obtain ⟨_ | depth, ranges⟩ := site
      · exact Scans.inside filled.1 (fun _ => rfl) ranges
      · exact filled.1
    | tail => exact ⟨Scans.inside filled.1 (fun _ => rfl) site.2, ih filled.2 _⟩

theorem lexes_concat (parts : List Segment) (fit : Fit dialect true parts) (filled : Filled dialect parts) :
    (concat parts).Lexes dialect :=
  lexesIn_concat parts fit (filled.from _)

theorem continues_concat (parts : List Segment) (fit : Fit dialect false parts) (filled : Filled dialect parts) :
    (concat parts).Continues dialect :=
  foldl_scans (show empty.Scans dialect false _ (Phrase.leaves false) _ _ from
    scans_empty dialect Scanner.isOutside _) fit (filled.from _)

end Segment

/-- The name is shaped like one, and it is not a joining word. -/
def IsFree (name : String) : Prop := IsShaped name ∧ (Lexeme.word name.toList).isJoining = false

namespace Fragment

variable {ranges : Bool}

theorem lexes_lexeme {text : String} {lexeme : Lexeme} (writes : ∀ index, (ofString text).Writes dialect index [lexeme])
    (flat : lexeme.token? = none) (unmarked : lexeme.tokens dialect = [])
    (alone : free = true → lexeme.isJoining = false) : (ofString text).LexesIn dialect free ranges :=
  fun index => ⟨[lexeme], writes index, reads_singleton flat alone ranges, by simp [unmarked, slots, ofString]⟩

theorem lexes_name {name : String} (isFree : IsFree name) : (ofString name).LexesIn dialect free ranges :=
  lexes_lexeme (fun _ => writes_name isFree.1) rfl (by rw [tokens, Lexer.run_name isFree.1]; rfl) fun _ => isFree.2

theorem lexes_quoteName (name : String) : (ofString (Text.quoteName name)).LexesIn dialect free ranges :=
  lexes_lexeme (fun _ => writes_quoteName name) rfl rfl fun _ => rfl

theorem lexes_quoteLiteral (value : String) : (ofString (Text.quoteLiteral value)).LexesIn dialect free ranges :=
  lexes_lexeme (fun _ => writes_quoteLiteral value) rfl rfl fun _ => rfl

theorem lexes_toDigits (value : Nat) : (ofString (toString value)).LexesIn dialect free ranges := by
  have digits : ∀ c ∈ Nat.toDigits 10 value, c.isDigit = true :=
    fun _ mem => Nat.isDigit_of_mem_toDigits (by decide) (by decide) mem
  refine lexes_lexeme (fun _ => writes_toString value) rfl ?_ fun _ => ?_
  · rw [tokens, Lexer.run_digits digits]
    rfl
  · simp only [isJoining, any_cons, any_nil]
    rw [isWord_toDigits rfl, isWord_toDigits rfl, isWord_toDigits rfl]
    rfl

theorem lexes_ofInt (value : Int) : (ofInt value).LexesIn dialect free ranges := by
  cases value with
  | ofNat value => exact lexes_toDigits value
  | negSucc value =>
    exact lexes_ofString_append (Segment.lexesIn_concat [.glue "-", .hole (toString (value + 1))] rfl
        ⟨lexes_toDigits (value + 1), trivial⟩)

theorem lexes_ofSlot (slot : Slot) : (ofSlot slot).LexesIn dialect free ranges := by
  intro index
  cases dialect with
  | sqlite =>
    have marked : (ofString "?").Writes .sqlite index [.mark '?'] := spells_ofString ⟨_, rfl, rfl⟩ rfl
    exact ⟨_, marked, rfl, rfl⟩
  | postgres =>
    have digits : ∀ c ∈ Nat.toDigits 10 index, c.isDigit = true :=
      fun _ mem => Nat.isDigit_of_mem_toDigits (by decide) (by decide) mem
    have rest : ∀ c ∈ Nat.toDigits 10 index, Identifier.isRest c = true :=
      fun c mem => by simp [Identifier.isRest, Char.isAlphanum, digits c mem]
    have reaches := Scanner.reaches_word (rfl : Identifier.isRest '$' = true) rest
    refine ⟨[.word ('$' :: Nat.toDigits 10 index)], fun mode plain =>
      ⟨.word ('$' :: Nat.toDigits 10 index), rfl, ?_⟩,
      reads_singleton rfl (fun _ => isJoining_eq_false mem_cons_self (by decide)) ranges, ?_⟩
    · obtain rfl : mode = .plain := by cases mode <;> simp_all [Scanner.isPlain]
      simpa [ofSlot, textFrom, Dialect.placeholder] using reaches
    · have ran : Lexer.run .postgres .plain ('$' :: Nat.toDigits 10 index) = _ := Lexer.run_marker [] digits
      obtain ⟨first, others, same⟩ := exists_cons_of_ne_nil (@Nat.toDigits_ne_nil index 10)
      rw [flatMap_singleton, tokens, ran, same]
      simp [Lexer.pending, Token.mark?, ofSlot, slots, Dialect.placeholder, same]

section Join

variable {fragments : List Fragment}

theorem lexes_join {separator : String}
    (separates : Segment.Fit dialect true [.hole empty, .glue separator, .hole empty])
    (each : ∀ fragment ∈ fragments, fragment.Lexes dialect) :
    (join separator fragments).Lexes dialect := by
  induction fragments with
  | nil => exact (continues_empty dialect).lexes
  | cons first rest ih =>
    rw [forall_mem_cons] at each
    cases rest with
    | nil => exact each.1
    | cons second others =>
      exact Segment.lexes_concat [.hole first, .glue separator, .hole (join separator _)] separates
        ⟨each.1, ih each.2, trivial⟩

theorem continues_join (each : ∀ fragment ∈ fragments, fragment.Continues dialect) :
    (join "" fragments).Continues dialect := by
  induction fragments with
  | nil => exact continues_empty dialect
  | cons first rest ih =>
    rw [forall_mem_cons] at each
    cases rest with
    | nil => exact each.1
    | cons second others => exact (each.1.append (continues_blank dialect)).append (ih each.2)

end Join

end Fragment

end GraphSql
