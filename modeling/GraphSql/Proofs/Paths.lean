import GraphSql.Proofs.Naming

namespace GraphSql

open Dialect List

/-- Reads a text character by character: what each of them completes, and what the end does. -/
structure Machine (μ α : Type) where
  step : μ → Char → Option (List α × μ)
  finish : μ → Option (List α)

namespace Machine

variable {μ α : Type} (machine : Machine μ α)

def read : μ → List Char → Option (List α)
  | mode, [] => machine.finish mode
  | mode, c :: rest => (machine.step mode c).bind fun next => (read next.2 rest).map (next.1 ++ ·)

variable {machine}

theorem read_cons {mode next : μ} {c : Char} (steps : machine.step mode c = some ([], next))
    (rest : List Char) : machine.read mode (c :: rest) = machine.read next rest := by
  simp [read, steps]

theorem read_completes {mode next : μ} {c : Char} {item : α}
    (steps : machine.step mode c = some ([item], next)) (rest : List Char) :
    machine.read mode (c :: rest) = (machine.read next rest).map (item :: ·) := by
  simp [read, steps]

/-- Characters that are only kept take a mode that holds them further. -/
theorem read_kept {mode : List Char → μ} {text : List Char}
    (keeps : ∀ c ∈ text, ∀ seen, machine.step (mode seen) c = some ([], mode (seen ++ [c])))
    (seen rest : List Char) :
    machine.read (mode seen) (text ++ rest) = machine.read (mode (seen ++ text)) rest := by
  induction text generalizing seen with
  | nil => simp
  | cons c others ih =>
    rw [cons_append, read_cons (keeps c mem_cons_self seen), ih fun other mem => keeps other (mem_cons_of_mem c mem)]
    simp

end Machine

open Machine

/-- The value of a string literal of SQL. -/
def literalValue? (text : String) : Option (List Char) :=
  match Scanner.lexemes text.toList with
  | some [.literal value] => some value
  | _ => none

theorem literalValue?_quoteLiteral (value : String) : literalValue? (Text.quoteLiteral value) = some value.toList := by
  simp [literalValue?, (Scanner.reaches_quoteLiteral value).lexemes_eq rfl]

namespace SqlitePath

/-- Where the reader is in a path. -/
inductive Mode where
  | start
  /-- Between steps. -/
  | between
  | point
  | key (seen : List Char)
  | quoted (seen : List Char)
  | index (seen : List Char)

def machine : Machine Mode (List Char) where
  step
    | .start, c => if c = '$' then some ([], .between) else none
    | .between, c => if c = '.' then some ([], .point) else if c = '[' then some ([], .index []) else none
    | .point, c =>
        if c = '"' then some ([], .quoted [])
        else if c = '.' ∨ c = '[' then none else some ([], .key [c])
    | .key seen, c =>
        if c = '.' then some ([seen], .point)
        else if c = '[' then some ([seen], .index []) else some ([], .key (seen ++ [c]))
    | .quoted seen, c => if c = '"' then some ([seen], .between) else some ([], .quoted (seen ++ [c]))
    | .index seen, c =>
        if c.isDigit then some ([], .index (seen ++ [c]))
        else if c = ']' ∧ seen ≠ [] then some ([seen], .between) else none
  finish
    | .between => some []
    | .key seen => some [seen]
    | _ => none

/-- The segments that a path leads through. -/
def segments? (path : List Char) : Option (List String) := (machine.read .start path).map (·.map String.ofList)

/-- A step begins with a point or a bracket, and either ends the key before it. -/
theorem read_key (seen : List Char) (segments : List String) : machine.read (.key seen) (segments.flatMap sqliteStep) =
      (machine.read .between (segments.flatMap sqliteStep)).map (seen :: ·) := by
  cases segments with
  | nil => rfl
  | cons segment rest =>
    have point : ∀ text, machine.read (.key seen) ('.' :: text) =
        (machine.read .between ('.' :: text)).map (seen :: ·) :=
      fun text => by rw [read_completes rfl, read_cons rfl]
    rw [flatMap_cons, sqliteStep]
    split
    · rw [cons_append, read_completes rfl, read_cons rfl]
    · split <;> exact point _

/-- A key between quotes ends at the first quote. -/
theorem read_quoted {key : List Char} (unquoted : '"' ∉ key) (rest : List Char) :
    machine.read .between ('.' :: '"' :: (key ++ '"' :: rest)) = (machine.read .between rest).map (key :: ·) := by
  have keeps : ∀ c ∈ key, ∀ seen, machine.step (.quoted seen) c = some ([], .quoted (seen ++ [c])) := by
    intro c mem seen
    have other : c ≠ '"' := by
      rintro rfl
      exact unquoted mem
    simp [machine, other]
  rw [read_cons rfl, read_cons rfl, read_kept keeps, read_completes rfl]
  rfl

/-- A key without quotes has only letters, digits and underscores in it. -/
theorem ne_of_isPlainKey {key : List Char} (plain : isPlainKey key = true) {c other : Char}
    (mem : c ∈ key) (odd : (other.isAlphanum || other == '_') = false) : c ≠ other := by
  rintro rfl
  cases key with
  | nil => simp at mem
  | cons first others =>
    simp only [isPlainKey, Bool.and_eq_true, all_eq_true] at plain
    rcases mem_cons.mp mem with rfl | later
    · simp only [Char.isAlphanum, Bool.or_eq_false_iff] at odd
      simpa [odd.1.1, odd.2] using plain.1
    · simpa [odd] using plain.2 c later

theorem read_step {segment : String} (unquoted : '"' ∉ segment.toList) (rest : List String) :
    machine.read .between (sqliteStep segment ++ rest.flatMap sqliteStep) =
      (machine.read .between (rest.flatMap sqliteStep)).map (segment.toList :: ·) := by
  rw [sqliteStep]
  split
  · next index =>
    simp only [Pointer.isArrayIndex, Bool.and_eq_true, all_eq_true] at index
    have keeps : ∀ c ∈ segment.toList, ∀ seen, machine.step (.index seen) c = some ([], .index (seen ++ [c])) :=
      fun c listed seen => by simp [machine, index.1.2 c listed]
    have ends : machine.step (.index segment.toList) ']' = some ([segment.toList], .between) := by
      have someDigit : segment.toList ≠ [] := by simpa using index.1.1
      simp [machine, someDigit]
    rw [cons_append, read_cons rfl, append_assoc, read_kept keeps]
    exact read_completes ends _
  · split
    · next plain =>
      have differs : ∀ c ∈ segment.toList, c ≠ '.' ∧ c ≠ '[' ∧ c ≠ '"' := fun c mem =>
        ⟨ne_of_isPlainKey plain mem rfl, ne_of_isPlainKey plain mem rfl, ne_of_isPlainKey plain mem rfl⟩
      cases named : segment.toList with
      | nil => simp [named, isPlainKey] at plain
      | cons first others =>
        rw [named, forall_mem_cons] at differs
        have keeps : ∀ c ∈ others, ∀ seen, machine.step (.key seen) c = some ([], .key (seen ++ [c])) :=
          fun c mem seen => by simp [machine, differs.2 c mem]
        have begins : machine.step .point first = some ([], .key [first]) := by simp [machine, differs.1]
        -- A plain key has no end of its own: the next step ends it.
        rw [cons_append, read_cons rfl, cons_append, read_cons begins, read_kept keeps, read_key]
        rfl
    · simpa using read_quoted unquoted (rest.flatMap sqliteStep)

/-- A segment with a double quote in it is written between quotes as it is. -/
theorem sqliteStep_of_quote {segment : String} (quote : '"' ∈ segment.toList) :
    sqliteStep segment = '.' :: '"' :: (segment.toList ++ ['"']) := by
  have noIndex : Pointer.isArrayIndex segment = false := by
    have noDigits : segment.toList.all Char.isDigit = false := all_eq_false.mpr ⟨_, quote, by decide⟩
    simp [Pointer.isArrayIndex, noDigits]
  have noKey : isPlainKey segment.toList = false :=
    Bool.eq_false_iff.mpr fun plain => ne_of_isPlainKey plain quote rfl rfl
  simp [sqliteStep, noIndex, noKey]

/-- The segments are read back exactly if none of them has a double quote in it: the first quote in
a segment ends the key that is read in its place. -/
theorem segments?_sqlitePath (pointer : Pointer) : segments? (sqlitePath pointer) = some pointer.segments ↔
      ∀ segment ∈ pointer.segments, '"' ∉ segment.toList := by
  obtain ⟨segments⟩ := pointer
  rw [segments?, sqlitePath, read_cons rfl]
  induction segments with
  | nil => simp [Machine.read, machine]
  | cons segment rest ih =>
    simp only [flatMap_cons, forall_mem_cons] at ih ⊢
    by_cases quote : '"' ∈ segment.toList
    -- The key ends at the first quote, so that what is read is shorter than the segment.
    · obtain ⟨before, after, parts, unquoted⟩ := eq_append_cons_of_mem quote
      have shorter : String.ofList before ≠ segment := by
        rintro rfl
        simp [unquoted] at quote
      rw [sqliteStep_of_quote quote, parts]
      simp only [cons_append, append_assoc]
      rw [read_quoted unquoted]
      simp [shorter]
    · rw [read_step quote]
      simp [quote, ← ih, Option.map_eq_some_iff]

/-- A path literal is read back as the segments of its pointer exactly if no segment has a double
quote in it, and different pointers of this kind have different literals. -/
theorem literal_identifies_pointer (pointer : Pointer) :
    ((literalValue? (pathLiteral .sqlite pointer)).bind segments? = some pointer.segments ↔
      ∀ segment ∈ pointer.segments, '"' ∉ segment.toList) ∧
    ∀ other : Pointer, (∀ segment ∈ pointer.segments ++ other.segments, '"' ∉ segment.toList) →
      pointer.segments ≠ other.segments →
        pathLiteral .sqlite pointer ≠ pathLiteral .sqlite other := by
  have value (pointer : Pointer) : (literalValue? (pathLiteral .sqlite pointer)).bind segments? =
      segments? (sqlitePath pointer) := by
    simp [pathLiteral, literalValue?_quoteLiteral, pathText]
  refine ⟨by rw [value, segments?_sqlitePath], fun other unquoted differ same => differ ?_⟩
  rw [forall_mem_append] at unquoted
  have read := (segments?_sqlitePath pointer).mpr unquoted.1
  rw [← value, same, value, (segments?_sqlitePath other).mpr unquoted.2] at read
  exact (Option.some_inj.mp read).symm

/-- Two keys are written like one that holds the quotes between them, and a quote in a key leaves a
text that is no path. -/
theorem literal_of_quote :
    ["a b", "c d"] ≠ ["a b\".\"c d"] ∧
      pathLiteral .sqlite ⟨["a b", "c d"]⟩ =
        pathLiteral .sqlite ⟨["a b\".\"c d"]⟩ ∧
      (literalValue? (pathLiteral .sqlite ⟨["a\"b"]⟩)).bind segments? = none := by
  decide

end SqlitePath

namespace ArrayLiteral

/-- The blanks that may stand around an element. -/
def isBlank (c : Char) : Bool := c == ' ' || (9 ≤ c.toNat && c.toNat ≤ 13)

/-- Where the reader is in an array of texts. -/
inductive Mode where
  | start
  /-- Before an element. Only the first one may be missing. -/
  | element (isFirst : Bool)
  | bare (seen : List Char)
  | quoted (seen : List Char)
  /-- After a backslash. -/
  | escaped (seen : List Char)
  | closed (seen : List Char)
  | done

/-- An element without quotes has no blanks at its end, and is no text if it is `NULL`. -/
def bareValue (seen : List Char) : Option (List Char) :=
  let text := (seen.reverse.dropWhile isBlank).reverse
  if text.map Char.toLower = "null".toList then none else some text

/-- The end of an element. -/
def ends (value : Option (List Char)) (c : Char) : Option (List (Option (List Char)) × Mode) :=
  if c = ',' then some ([value], .element false)
  else if c = '\x7d' then some ([value], .done) else none

def machine : Machine Mode (Option (List Char)) where
  step
    | .start, c => if c = '\x7b' then some ([], .element true) else none
    | .element isFirst, c =>
        if isBlank c then some ([], .element isFirst)
        else if c = '"' then some ([], .quoted [])
        else if c = '\x7d' ∧ isFirst then some ([], .done)
        else if c ∈ [',', '\x7b', '\x7d', '\\'] then none else some ([], .bare [c])
    | .bare seen, c =>
        if c ∈ ['"', '\x7b', '\\'] then none
        else if c = ',' ∨ c = '\x7d' then ends (bareValue seen) c
        else some ([], .bare (seen ++ [c]))
    | .quoted seen, c =>
        if c = '"' then some ([], .closed seen)
        else if c = '\\' then some ([], .escaped seen) else some ([], .quoted (seen ++ [c]))
    | .escaped seen, c => some ([], .quoted (seen ++ [c]))
    | .closed seen, c => if isBlank c then some ([], .closed seen) else ends (some seen) c
    | .done, _ => none
  finish
    | .done => some []
    | _ => none

/-- The elements of an array of texts; one may be no text. -/
def elements? (text : List Char) : Option (List (Option String)) :=
  (machine.read .start text).map (·.map (·.map String.ofList))

theorem read_quoted (text seen rest : List Char) : machine.read (.quoted seen)
        (text.flatMap (fun c => if c == '"' || c == '\\' then ['\\', c] else [c]) ++ '"' :: rest) =
      machine.read (.closed (seen ++ text)) rest := by
  induction text generalizing seen with
  | nil => simp [read_cons (show machine.step (.quoted seen) '"' = _ from rfl)]
  | cons c others ih =>
    rw [flatMap_cons, append_assoc]
    split
    · next special =>
      rw [cons_append, cons_append, read_cons rfl, read_cons rfl, nil_append, ih]
      simp
    · next plain =>
      have keeps : machine.step (.quoted seen) c = some ([], .quoted (seen ++ [c])) := by
        simp only [Bool.or_eq_true, beq_iff_eq, not_or] at plain
        simp [machine, plain]
      rw [cons_append, read_cons keeps, nil_append, ih]
      simp

theorem isBlank_of_isBlank {c : Char} (blank : isBlank c = true) : Text.isBlank c = true := by
  simp only [isBlank, Bool.or_eq_true, beq_iff_eq] at blank
  rcases blank with rfl | among
  · rfl
  · simp [Text.isBlank, among]

/-- The element of a segment is read as its text, whatever ends it. -/
theorem read_element (segment : String) (isFirst : Bool) {last : Char}
    (isLast : last = ',' ∨ last = '\x7d') (rest : List Char) :
    machine.read (.element isFirst) (postgresElement segment ++ last :: rest) =
      (ends (some segment.toList) last).bind fun next => (machine.read next.2 rest).map (next.1 ++ ·) := by
  have unblank : isBlank last = false := by rcases isLast with rfl | rfl <;> rfl
  rw [postgresElement]
  split
  · rw [cons_append, read_cons rfl, append_assoc, cons_append, nil_append, read_quoted, nil_append]
    simp [Machine.read, machine, unblank]
  · next bare =>
    simp only [needsQuotes, Bool.or_eq_true, not_or, any_eq_true, not_exists, not_and,
      beq_iff_eq, Text.lowerAscii] at bare
    obtain ⟨⟨nonempty, notNull⟩, each⟩ := bare
    have unblankEach : ∀ c ∈ segment.toList, isBlank c = false := fun c mem => by
      by_contra blank
      exact (each c mem).2 (isBlank_of_isBlank (by simpa using blank))
    -- Nothing is cut off at the end, since quotes are also needed around every blank of the engine.
    have value : bareValue segment.toList = some segment.toList := by
      have untrimmed : segment.toList.reverse.dropWhile isBlank = segment.toList.reverse := by
        cases backwards : segment.toList.reverse with
        | nil => rfl
        | cons final others =>
          have mem : final ∈ segment.toList := mem_reverse.mp (by simp [backwards])
          exact dropWhile_cons_of_neg (by simp [unblankEach final mem])
      have text : segment.toList.map Char.toLower ≠ "null".toList := fun same => notNull (by rw [same]; rfl)
      rw [bareValue, untrimmed, reverse_reverse, if_neg text]
    cases named : segment.toList with
    | nil => simp_all
    | cons first others =>
      have keeps : ∀ c ∈ others, ∀ seen,
          machine.step (.bare seen) c = some ([], .bare (seen ++ [c])) := fun c mem seen => by
        simp [machine, each c (by simp [named, mem])]
      have begins : machine.step (.element isFirst) first = some ([], .bare [first]) := by
        simp [machine, each first (by simp [named]), unblankEach first (by simp [named])]
      rw [cons_append, read_cons begins, read_kept keeps]
      rw [named] at value
      rcases isLast with rfl | rfl <;> simp [Machine.read, machine, value]

theorem read_elements (isFirst : Bool) (segment : String) (others : List String) :
    machine.read (.element isFirst) (intercalate [','] ((segment :: others).map postgresElement) ++ ['\x7d']) =
      some ((segment :: others).map fun segment => some segment.toList) := by
  induction others generalizing isFirst segment with
  | nil =>
    have read := read_element segment isFirst (.inr rfl) []
    simpa [intercalate, ends, Machine.read, machine] using read
  | cons next others ih =>
    have read := read_element segment isFirst (.inl rfl)
      (intercalate [','] ((next :: others).map postgresElement) ++ ['\x7d'])
    rw [ends, if_pos rfl, Option.bind_some, ih] at read
    simpa [intercalate] using read

/-- The path literal of a pointer is an array of texts, which are the segments of the pointer. -/
theorem elements?_pathLiteral (pointer : Pointer) :
    (literalValue? (pathLiteral .postgres pointer)).bind elements? =
      some (pointer.segments.map some) := by
  obtain ⟨segments⟩ := pointer
  rw [pathLiteral, literalValue?_quoteLiteral, Option.bind_some, pathText,
    String.toList_ofList, postgresPath, elements?, read_cons rfl]
  cases segments with
  | nil => rfl
  | cons segment others =>
    rw [read_elements]
    simp [Function.comp_def]

end ArrayLiteral

end GraphSql
