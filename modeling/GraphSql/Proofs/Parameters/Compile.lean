import GraphSql.Proofs.Parameters.Predicate

namespace GraphSql

variable {σ : Type} {values : List (String × Json)}

/-- The text of a predicate whose fields are read as the scope says. -/
def Predicate.compile (opts : Options) (scope : Scope) (predicate : Predicate Query) : Attempt Fragment :=
  ((predicate.map (Query.fold (Block.nest opts))).lower opts.dialect scope).result.map
    (Condition.written opts.dialect opts.schema)

theorem Predicate.compile_abstracts {given : String → Json → Prop} {predicate other : Predicate Query}
    (abstracts : predicate.Abstracts given other) (opts : Options) (scope : Scope) :
    Resembles (Fragment.Abstracts given) (Fragment.Refuses given) (predicate.compile opts scope)
      (other.compile opts scope) := by
  apply Resembles.map
  exact lower_abstracts (abstracts.map (Query.fold (Block.nest opts)))

/-- A pattern, with a text in the place of a literal that is none and that a parameter replaces. -/
def Operand.mended : Operand → Operand → Operand
  | .literal (.string text) valueType, _ => .literal (.string text) valueType
  | .literal _ valueType, .parameter .. => .literal (.string "") valueType
  | operand, _ => operand

namespace Predicate

mutual

/-- The predicate, with a text in the place of each pattern that is none and that the other predicate
replaces by a parameter. -/
def mended : Predicate σ → Predicate σ → Predicate σ
  | .text field op pattern, .text _ _ other => .text field op (pattern.mended other)
  | .and operands, .and others => .and (mendedAll operands others)
  | .or operands, .or others => .or (mendedAll operands others)
  | .not operand, .not other => .not (mended operand other)
  | predicate, _ => predicate

def mendedAll : List (Predicate σ) → List (Predicate σ) → List (Predicate σ)
  | operand :: rest, other :: others => mended operand other :: mendedAll rest others
  | operands, _ => operands

end

theorem mended_operand_self (operand : Operand) : operand.mended operand = operand := by
  cases operand with
  | literal value valueType => cases value <;> rfl
  | list | parameter => rfl

theorem mended_self (predicate : Predicate σ) : predicate.mended predicate = predicate := by
  have all {operands : List (Predicate σ)} (each : ∀ operand ∈ operands, operand.mended operand = operand) :
      mendedAll operands operands = operands := by
    induction operands with
    | nil => simp [mendedAll]
    | cons operand rest ih =>
      rw [List.forall_mem_cons] at each
      simp [mendedAll, each.1, ih each.2]
  induction predicate with
  | text => simp [mended, mended_operand_self]
  | and operands ih | or operands ih => simp [mended, all ih]
  | not operand ih => simp [mended, ih]
  | _ => simp only [mended]

/-- The names that are bound to some value. -/
abbrev Among (values : List (String × Json)) (name : String) (_ : Json) : Prop := name ∈ values.map Prod.fst

theorem operand_abstracts_among {operand other : Operand}
    (abstracts : operand.Abstracts (Gives values) other) : operand.Abstracts (Among values) other := by
  cases abstracts with
  | same => exact .same _
  | named scalar meant => exact .named scalar meant.mem

theorem operand_mended_abstracts {operand other : Operand} (abstracts : operand.Abstracts (Gives values) other) :
    (operand.mended other).Abstracts (Among values) other := by
  cases abstracts with
  | same =>
    rw [mended_operand_self]
    exact .same _
  | named scalar meant =>
    rename_i name value valueType
    cases value with
    | bool | number | string => exact .named rfl meant.mem
    | null | array | object => cases scalar

mutual

theorem mended_abstracts {predicate other : Predicate σ} : predicate.Abstracts (Gives values) other →
      (predicate.mended other).Abstracts (Among values) other
  | .same predicate => by
    rw [mended_self]
    exact .same predicate
  | .comparison single abstracts => by
    simpa only [mended] using .comparison single (operand_abstracts_among abstracts)
  | .text abstracts => by simpa only [mended] using .text (operand_mended_abstracts abstracts)
  | .between lower upper => by
    simpa only [mended] using .between (operand_abstracts_among lower) (operand_abstracts_among upper)
  | .array each => by simpa only [mended] using .array (each.imp fun _ _ => operand_abstracts_among)
  | .object abstracts => by simpa only [mended] using .object (operand_abstracts_among abstracts)
  | .aggregate abstracts => by simpa only [mended] using .aggregate (operand_abstracts_among abstracts)
  | .and each => by simpa only [mended] using .and (mendedAll_abstracts each)
  | .or each => by simpa only [mended] using .or (mendedAll_abstracts each)
  | .not abstracts => by simpa only [mended] using .not (mended_abstracts abstracts)

theorem mendedAll_abstracts {operands others : List (Predicate σ)} :
    List.Forall₂ (Predicate.Abstracts (Gives values)) operands others →
      List.Forall₂ (Predicate.Abstracts (Among values)) (mendedAll operands others) others
  | .nil => by simp [mendedAll]
  | .cons head tail => by simpa only [mendedAll] using .cons (mended_abstracts head) (mendedAll_abstracts tail)

end

end Predicate

/-- A name that the text with the names has, and that is not bound, is a name of the other text. -/
theorem Fragment.Abstracts.mem_names {first second : Fragment}
    (abstracts : first.Abstracts (Predicate.Among values) second) {slot : Slot} {name : String}
    (mem : slot ∈ second.slots) (named : slot.name? = some name)
    (absent : name ∉ values.map Prod.fst) : name ∈ first.names := by
  have origin : ∀ {before after : List Slot}, List.Forall₂ (Slot.Abstracts (Predicate.Among values)) before after →
      slot ∈ after → ∃ known ∈ before, known.Abstracts (Predicate.Among values) slot := by
    intro before after each
    induction each with
    | nil => intro impossible; cases impossible
    | cons head tail ih =>
      intro mem
      rcases List.mem_cons.mp mem with rfl | later
      · exact ⟨_, List.mem_cons_self, head⟩
      · obtain ⟨known, earlier, related⟩ := ih later
        exact ⟨known, List.mem_cons_of_mem _ earlier, related⟩
  obtain ⟨known, earlier, related⟩ := origin abstracts.slots mem
  cases related with
  | same => exact List.mem_filterMap.mpr ⟨slot, earlier, named⟩
  | named meant applied =>
    cases named
    exact absurd meant absent

/-- Parameters mean the literals that they replace. If the literals compile and no other parameter has
one of the names, the parameters compile to the same text, and binding them gives the same values. If the
literals would compile but for patterns that are no strings, the parameters compile, and binding them fails:
with such a pattern, or with a further parameter that has no value. -/
theorem parameters_mean_literals {predicate other : Predicate Query}
    (abstracts : predicate.Abstracts (Gives values) other) (opts : Options) (scope : Scope) :
    (∀ known, predicate.compile opts scope = .ok known →
      (∀ name ∈ known.names, name ∉ values.map Prod.fst) →
      ∃ named, other.compile opts scope = .ok named ∧
        (∀ index, Fragment.textFrom opts.dialect index named.pieces =
          Fragment.textFrom opts.dialect index known.pieces) ∧
        named.bind opts.dialect values = known.bind opts.dialect []) ∧
    (∀ error mended, predicate.compile opts scope = .error error →
      (predicate.mended other).compile opts scope = .ok mended →
      ∃ named fault, other.compile opts scope = .ok named ∧
        named.bind opts.dialect values = .error fault ∧
        ((∃ name value, Gives values name value ∧ ValueType.ofJson value ≠ .string ∧
            fault = .expectedString name (.ofJson value)) ∨
          ∃ name ∈ mended.names, name ∉ values.map Prod.fst ∧ fault = .missingParameter name)) := by
  obtain ⟨compiles, refuses⟩ := predicate.compile_abstracts abstracts opts scope
  constructor
  · intro known returned apart
    obtain ⟨named, namedReturned, alike⟩ := compiles known returned
    exact ⟨named, namedReturned, alike.textFrom_eq opts.dialect,
      alike.bind_eq opts.dialect apart⟩
  · intro error mended failed mendedReturned
    have mendedAlike := (predicate.mended other).compile_abstracts
      (Predicate.mended_abstracts abstracts) opts scope
    obtain ⟨named, namedReturned, alike⟩ := mendedAlike.1 mended mendedReturned
    have refused : named.Refuses (Gives values) := (refuses error failed).of_ok namedReturned
    obtain ⟨fault, unbound⟩ := refused.bind_eq_error opts.dialect
    refine ⟨named, fault, namedReturned, unbound, ?_⟩
    obtain ⟨slot, mem, slotFailed⟩ := exists_mem_of_mapM_error unbound
    rcases slot.bind_eq_error opts.dialect slotFailed with refusal | missing
    · exact .inl refusal
    · obtain ⟨name, found, absent, same⟩ := missing
      exact .inr ⟨name, alike.mem_names mem found absent, absent, same⟩

/-- A person is old enough, and has a name that does not start in some way. -/
def oldEnough (least start : Operand) : Predicate Query :=
  .and [.comparison (.ofProperty "p" "age") .greaterOrEqual least,
    .not (.text (.ofProperty "p" "name") .startsWith start)]

theorem oldEnough_abstracts {least start other another : Operand} (first : least.Abstracts (Gives values) other)
    (second : start.Abstracts (Gives values) another) :
    (oldEnough least start).Abstracts (Gives values) (oldEnough other another) :=
  .and (.cons (.comparison rfl first) (.cons (.not (.text second)) .nil))

/-- The scope of a row set of people. -/
def peopleScope : Scope := .ofTables [("p", .node)]

theorem oldEnough_parameters_mean_literals :
    (∃ known named,
      (oldEnough (.literal (.ofNat 30) (some .number)) (.literal (.string "50%") (some .string))).compile
        {} peopleScope = .ok known ∧
      (oldEnough (.parameter "least" (some .number)) (.parameter "start" (some .string))).compile
        {} peopleScope = .ok named ∧
      named.text .sqlite = known.text .sqlite ∧
      named.bind .sqlite [("least", .ofNat 30), ("start", .string "50%")] = known.bind .sqlite []) ∧
    ∃ named fault,
      (oldEnough (.parameter "least" (some .number)) (.parameter "start" (some .number))).compile
        {} peopleScope = .ok named ∧
      named.bind .sqlite [("least", .ofNat 30), ("start", .ofNat 5)] = .error fault := by
  constructor
  · have abstracts :
        (oldEnough (.literal (.ofNat 30) (some .number)) (.literal (.string "50%") (some .string))).Abstracts
          (Gives [("least", .ofNat 30), ("start", .string "50%")])
          (oldEnough (.parameter "least" (some .number)) (.parameter "start" (some .string))) :=
      oldEnough_abstracts (.named rfl rfl) (.named rfl rfl)
    obtain ⟨named, returned, texts, bound⟩ :=
      (parameters_mean_literals abstracts {} peopleScope).1 _ rfl (by decide)
    exact ⟨_, named, rfl, returned, congrArg String.ofList (texts 1), bound⟩
  · have abstracts :
        (oldEnough (.literal (.ofNat 30) (some .number)) (.literal (.ofNat 5) (some .number))).Abstracts
          (Gives [("least", .ofNat 30), ("start", .ofNat 5)])
          (oldEnough (.parameter "least" (some .number)) (.parameter "start" (some .number))) :=
      oldEnough_abstracts (.named rfl rfl) (.named rfl rfl)
    obtain ⟨named, fault, returned, unbound, _⟩ := (parameters_mean_literals abstracts {} peopleScope).2 _ _ rfl rfl
    exact ⟨named, fault, returned, unbound⟩

/-- A parameter without a value stands before the pattern that is no string, and is reported. -/
theorem oldEnough_missing_before_refused :
    ∃ (error : CompileError) (mended named : Fragment),
      (oldEnough (.parameter "least" (some .number)) (.literal (.ofNat 5) (some .number))).Abstracts
        (Gives [("start", .ofNat 5)])
        (oldEnough (.parameter "least" (some .number)) (.parameter "start" (some .number))) ∧
      (oldEnough (.parameter "least" (some .number)) (.literal (.ofNat 5) (some .number))).compile
        {} peopleScope = .error error ∧
      ((oldEnough (.parameter "least" (some .number)) (.literal (.ofNat 5) (some .number))).mended
        (oldEnough (.parameter "least" (some .number)) (.parameter "start" (some .number)))).compile
        {} peopleScope = .ok mended ∧
      (oldEnough (.parameter "least" (some .number)) (.parameter "start" (some .number))).compile
        {} peopleScope = .ok named ∧
      named.bind .sqlite [("start", .ofNat 5)] = .error (.missingParameter "least") :=
  ⟨_, _, _, oldEnough_abstracts (.same _) (.named rfl rfl), rfl, rfl, rfl, rfl⟩

end GraphSql
