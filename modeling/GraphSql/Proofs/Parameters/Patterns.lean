import GraphSql.Proofs.Parameters.Compile

namespace GraphSql

open Fragment List Traced

variable {dialect : Dialect} {op : TextOperator}

/-- A pattern is made of the operand. -/
def TextOperator.makesPattern (dialect : Dialect) (op : TextOperator) : Bool := !(op == .like && dialect == .postgres)

theorem TextOperator.transform_ne_identity {dialect : Dialect} {op : TextOperator}
    (makes : op.makesPattern dialect = true) :
    Predicate.patternTransform dialect op ≠ .identity := by
  revert makes
  cases op <;> cases dialect <;> decide

namespace Predicate

section Literal

variable (makes : op.makesPattern dialect = true) {value : Json} (other : ¬ value.IsString)

include makes other

theorem term_literal_eq_error (valueType : Option ValueType) :
    (Operand.literal value valueType).term (patternTransform dialect op) =
      .error (.unsupported (.patternValue value.write)) := by
  have refused : (patternTransform dialect op).apply value = none :=
    Transform.apply_eq_none_iff.mpr (by simp [TextOperator.transform_ne_identity makes, other])
  simp [Operand.term, refused]

theorem lowerText_eq_error (scope : Scope) (field : Field) (valueType : Option ValueType) :
    ∃ error, lowerText dialect scope field op (.literal value valueType) = .error error ∧
      ((∃ cause, error = .unsupported cause) ∨ field.read scope .text = .error error) := by
  rw [lowerText_eq, term_literal_eq_error makes other]
  cases checked : field.valueType.forM (field.rejectContainer "string operator") with
  | error error =>
    refine ⟨error, rfl, .inl ?_⟩
    cases found : field.valueType with
    | none =>
      rw [found] at checked
      cases checked
    | some declared =>
      simp only [found, Option.forM, Field.rejectContainer] at checked
      split at checked
      · cases checked
        exact ⟨_, rfl⟩
      · cases checked
  | ok =>
    cases field.read scope .text with
    | error error => exact ⟨error, rfl, .inr rfl⟩
    | ok text => exact ⟨_, rfl, .inl ⟨_, rfl⟩⟩

end Literal

theorem named_mem_slots_compile {opts : Options} {scope : Scope} {field : Field} {name : String}
    {valueType : Option ValueType} {fragment : Fragment}
    (made : (Predicate.text field op (.parameter name valueType)).compile opts scope = .ok fragment) :
    .named name (patternTransform opts.dialect op) ∈ fragment.slots := by
  have held : Returns ((Predicate.text field op (.parameter name valueType)).compile opts scope)
      fun fragment => .named name (patternTransform opts.dialect op) ∈ fragment.slots := by
    simp only [compile, Predicate.map, lower, result_ofExcept, lowerText_eq, returns_mapOk, returns_bind]
    refine returns_all fun _ => returns_all fun text => ?_
    exact slots_text_subset op text _ (mem_singleton_self _)
  exact held.of_ok made

end Predicate

/-- A value of which no pattern is made keeps its parameter from being bound, and is reported if every
other parameter has a value that fits. -/
theorem CompiledQuery.bind_eq_error {compiled : CompiledQuery} {name : String} {transform : Transform}
    (member : .named name transform ∈ compiled.slots) (isPattern : transform ≠ .identity) {value : Json}
    (other : ¬ value.IsString) {values : List (String × Json)} (meant : Gives values name value) :
    ∃ fault, compiled.bind values = .error fault ∧
      ((∀ slot ∈ compiled.slots, slot.name? ≠ some name → slot.Fits values) →
        fault = .expectedString name (.ofJson value)) := by
  cases bound : compiled.bind values with
  | ok results =>
    obtain ⟨found, given, fits⟩ :=
      (Slot.exists_bind_eq_ok_iff _).mp (exists_mapM_eq_ok_iff.mp ⟨results, bound⟩ _ member)
    cases meant.symm.trans given
    exact absurd fits (by simp [isPattern, other])
  | error fault =>
    refine ⟨fault, rfl, fun fit => ?_⟩
    obtain ⟨slot, mem, failed⟩ := exists_mem_of_mapM_error bound
    by_cases named : slot.name? = some name
    · cases (Slot.bind_eq_error_iff _).mp failed with
      | value _ absent =>
        cases named
        exact absurd meant.mem absent
      | text given =>
        cases named
        cases meant.symm.trans given
        rfl
    · obtain ⟨result, returned⟩ := (Slot.exists_bind_eq_ok_iff compiled.dialect).mpr (fit slot mem named)
      cases returned.symm.trans failed

/-- Patterns are strings, but for the operator LIKE of PostgreSQL, of whose operand nothing is made. A
literal that is no string is refused wherever its field can be read. A parameter with such a value keeps every
compiled query with the text of the predicate from being bound, and is reported unless there is something to
report about another parameter. -/
theorem patterns_are_strings {opts : Options} {op : TextOperator}
    (makes : op.makesPattern opts.dialect = true) (value : Json) (other : ¬ value.IsString)
    (valueType : Option ValueType) (scope : Scope) (field : Field) :
    (∃ error,
      (Predicate.text field op (.literal value valueType)).compile opts scope = .error error ∧
        ((∃ cause, error = .unsupported cause) ∨ field.read scope .text = .error error)) ∧
    ∀ name fragment (compiled : CompiledQuery) values,
      (Predicate.text field op (.parameter name valueType)).compile opts scope = .ok fragment →
        fragment.slots ⊆ compiled.slots → Gives values name value →
          ∃ fault, compiled.bind values = .error fault ∧
            ((∀ slot ∈ compiled.slots, slot.name? ≠ some name → slot.Fits values) →
              fault = .expectedString name (.ofJson value)) := by
  constructor
  · obtain ⟨error, failed, cause⟩ := Predicate.lowerText_eq_error makes other scope field valueType
    refine ⟨error, ?_, cause⟩
    simp only [Predicate.compile, Predicate.map, Predicate.lower, result_ofExcept, failed]
    rfl
  · intro name fragment compiled values made within meant
    exact CompiledQuery.bind_eq_error (within (Predicate.named_mem_slots_compile made))
      (TextOperator.transform_ne_identity makes) other meant

/-- The people whose name matches the pattern. -/
def peopleNamed (pattern : Operand) : Query :=
  .mk ((Block.ofKind "p" "person").filterBy .node "p" (.text (.ofProperty "p" "name") .like pattern))

theorem peopleNamed_patterns_are_strings :
    (∃ error, ((Predicate.text (.ofProperty "p" "name") .like (.literal (.ofNat 5) none)).compile {}
      peopleScope) = .error error) ∧
    ∃ compiled fault, ((peopleNamed (.parameter "name" none)).compile {} "people").result =
      .ok compiled ∧ compiled.bind [("name", .ofNat 5)] = .error fault := by
  have number : ¬ (Json.ofNat 5).IsString := by
    rintro ⟨text, same⟩
    cases same
  obtain ⟨⟨error, refused, -⟩, unbound⟩ :=
    @patterns_are_strings {} .like rfl _ number none peopleScope (.ofProperty "p" "name")
  obtain ⟨compiled, returned, within⟩ : ∃ compiled,
      ((peopleNamed (.parameter "name" none)).compile {} "people").result = .ok compiled ∧
        [.named "name" (Predicate.patternTransform .sqlite .like)] ⊆ compiled.slots :=
    ⟨_, rfl, cons_subset.mpr ⟨.tail _ (.tail _ (.head _)), nil_subset _⟩⟩
  obtain ⟨fault, failed, -⟩ := unbound "name" _ compiled [("name", .ofNat 5)] rfl within rfl
  exact ⟨⟨error, refused⟩, compiled, fault, returned, failed⟩

/-- PostgreSQL is handed a number to match names against. -/
theorem peopleNamed_postgres_number :
    (∃ compiled, ((peopleNamed (.literal (.ofNat 5) none)).compile { dialect := .postgres }
      "people").result = .ok compiled) ∧
    ∃ compiled results, ((peopleNamed (.parameter "name" none)).compile
      { dialect := .postgres } "people").result = .ok compiled ∧
        compiled.bind [("name", .ofNat 5)] = .ok results :=
  ⟨⟨_, rfl⟩, _, _, rfl, rfl⟩

end GraphSql
