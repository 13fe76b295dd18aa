import GraphSql.Proofs.Lowering.Comparison
import GraphSql.Proofs.Semantics.Datum

namespace GraphSql

open List Traced

/-- The type of literals is that of each one that is not null. -/
theorem literalType_spec {known found : Option ValueType} {values : List Json}
    (typed : literalType known values = .ok found) :
    (known ≠ none → found = known) ∧ ∀ value ∈ values, value ≠ .null → found = some (ValueType.ofJson value) := by
  induction values generalizing known with
  | nil =>
    cases typed
    simp
  | cons value rest ih =>
    unfold literalType at typed
    split at typed
    · obtain ⟨kept, each⟩ := ih typed
      refine ⟨kept, forall_mem_cons.mpr ⟨fun present => ?_, each⟩⟩
      cases value <;> simp_all [ValueType.ofJson]
    · obtain ⟨kept, each⟩ := ih typed
      exact ⟨by simp, forall_mem_cons.mpr ⟨fun _ => kept (by simp), each⟩⟩
    · split at typed
      · next same =>
        obtain ⟨kept, each⟩ := ih typed
        exact ⟨kept, forall_mem_cons.mpr ⟨fun _ => same ▸ kept (by simp), each⟩⟩
      · cases typed

variable {field : Field} {declared : Option ValueType} {values : List Json} {scope : Scope} {left : Term}

namespace Field

/-- The type in which a field is compared: one that is declared with the literals, then that of the
field, then that of the literals. -/
def typeFor (field : Field) (declared found : Option ValueType) : ValueType :=
  declared.getD ((field.declaredType.or found).getD .unknown)

/-- A list is compared in the type of each of its literals that is not null, and none is a container. -/
theorem comparisonType_list {keyword : String} {compared : ValueType}
    (typed : field.comparisonType keyword true [.list values declared] = .ok compared) :
    (∀ other, field.comparisonType other true [.list values declared] = .ok compared) ∧
      (∀ value ∈ values, (ValueType.ofJson value).isContainer = false) ∧
      (∃ found, compared = field.typeFor declared found) ∧ ∀ value ∈ values, value ≠ .null →
        compared = field.typeFor declared (some (.ofJson value)) := by
  have plain : (Operand.list values declared).containerType true = none := by
    obtain ⟨_, accepted, -⟩ := exists_of_bind_eq_ok typed
    cases found : (Operand.list values declared).containerType true with
    | none => rfl
    | some container =>
      have isContainer : container.isContainer = true := find?_some found
      simp [found, rejectContainer, isContainer, bind, Except.bind] at accepted
  have sameType (other : String) : field.comparisonType other true [.list values declared] =
      field.comparisonType keyword true [.list values declared] := by
    simp only [comparisonType, forM_eq_forM, forM_cons, plain]
    rfl
  refine ⟨fun other => (sameType other).trans typed, by simpa [Operand.containerType, Operand.literals] using plain, ?_⟩
  obtain ⟨_, -, typed⟩ := exists_of_bind_eq_ok typed
  obtain ⟨basis, told, same⟩ := exists_of_bind_eq_ok typed
  cases declared with
  | some valueType =>
    cases told
    cases same
    exact ⟨⟨none, rfl⟩, fun _ _ _ => rfl⟩
  | none =>
    obtain ⟨found, ofLiterals, told⟩ := exists_of_bind_eq_ok told
    obtain rfl : basis = .literal found := by cases found <;> cases told <;> rfl
    cases same
    refine ⟨⟨found, rfl⟩, fun value mem present => ?_⟩
    rw [(literalType_spec ofLiterals).2 value mem present]
    rfl

theorem comparisonType_literal {value : Json} (plain : (ValueType.ofJson value).isContainer = false)
    (keyword : String) :
    field.comparisonType keyword false [.literal value declared] =
      .ok (field.typeFor declared (if value matches .null then none else some (.ofJson value))) := by
  cases value with
  | array | object => cases plain
  | _ => cases declared <;> rfl

theorem exists_read {first : Extraction} (read : field.read scope first = .ok left)
    (second : Extraction) : ∃ other, field.read scope second = .ok other := by
  unfold Field.read at read ⊢
  obtain ⟨target, resolved, found⟩ := exists_of_bind_eq_ok read
  rw [resolved]
  cases target with
  | column column => exact ⟨left, found⟩
  | property pointer =>
    obtain ⟨document, inDocument, -⟩ := exists_of_bind_eq_ok found
    exact ⟨document.extract pointer second, by simp [inDocument, bind, Except.bind, pure, Except.pure]⟩
  | whole => cases found

end Field

namespace Predicate

/-- The condition that compares with one literal: whether there is a value is asked of another term. -/
def against (left absent : Term) (negated : Bool) : Json → Condition Statement
  | .null => .isNull absent negated
  | value => .compare left (if negated then .notEqual else .equal) (.value value)

theorem lowerComparison_literal {value : Json} (scalar : (ValueType.ofJson value).isContainer = false)
    {compared : ValueType} (typed : compared =
      field.typeFor declared (if value matches .null then none else some (.ofJson value)))
    (plain : compared.isContainer = false) (read : field.read scope compared.extraction = .ok left)
    (negated : Bool) :
    lowerComparison scope field (if negated then .notEqual else .equal) (.literal value declared) =
      .ok (against left left negated value) := by
  have compares := typed ▸ field.comparisonType_literal scalar
  rw [lowerComparison_eq]
  cases negated <;> cases value <;>
    simp [Comparison.isMembership, Comparison.comparator?, compares, Field.rejectContainer, plain, read,
      Operand.isNull, lowerNullComparison, Operand.term, Transform.apply, against, bind, Except.bind,
      pure, Except.pure]

/-- Membership and the equalities for its literals compare one term, and they ask another one for
nulls. -/
theorem exists_against {inside : Condition Statement}
    (made : lowerComparison scope field .isIn (.list values declared) = .ok inside) :
    ∃ left absent, inside = lowerMembership left values false ∧
      lowerComparison scope field .notIn (.list values declared) = .ok (lowerMembership left values true) ∧
      ∀ value ∈ .null :: values, ∀ negated,
        lowerComparison scope field (if negated then .notEqual else .equal) (.literal value declared) =
          .ok (against left absent negated value) := by
  obtain ⟨compared, isType, afterType⟩ := exists_of_bind_eq_ok made
  obtain ⟨_, accepted, afterCheck⟩ := exists_of_bind_eq_ok afterType
  obtain ⟨left, read, same⟩ := exists_of_bind_eq_ok afterCheck
  cases same
  obtain ⟨compares, scalars, ⟨found, isFound⟩, types⟩ := Field.comparisonType_list isType
  have plain : compared.isContainer = false := by
    by_contra container
    simp [Field.rejectContainer, container] at accepted
  have plainNull : (field.typeFor declared none).isContainer = false := by
    rw [isFound] at plain
    unfold Field.typeFor at plain ⊢
    cases declared with
    | some declared => exact plain
    | none => cases ofField : field.declaredType <;> simp_all [ValueType.isContainer]
  obtain ⟨absent, readNull⟩ := Field.exists_read read (field.typeFor declared none).extraction
  refine ⟨left, absent, rfl, ?_, fun value mem negated => ?_⟩
  · simp [lowerComparison, Comparison.isMembership, Comparison.comparator?, compares,
      Field.rejectContainer, plain, read, membershipValues, bind, Except.bind, pure, Except.pure]
  · cases value with
    | null =>
      have typed : field.typeFor declared none = field.typeFor declared
        (if Json.null matches .null then none else some (.ofJson .null)) := rfl
      exact lowerComparison_literal rfl typed plainNull readNull negated
    | _ =>
      have inValues := (mem_cons.mp mem).resolve_left (by simp)
      exact lowerComparison_literal (scalars _ inValues) (types _ inValues (by simp)) plain read negated

theorem lowerAll_map_eq_ok {dialect : Dialect} {predicate : Json → Predicate Nested}
    {condition : Json → Condition Statement}
    (each : ∀ value ∈ values, ((predicate value).lower dialect scope).result = .ok (condition value)) :
    (lowerAll dialect scope (values.map predicate)).result = .ok (values.map condition) := by
  induction values with
  | nil => rfl
  | cons value rest ih =>
    rw [forall_mem_cons] at each
    simp only [map_cons, lowerAll, result_bind, result_pure, each.1, ih each.2]
    rfl

section Connectives

variable {dialect : Dialect} {operands : List (Predicate Nested)}
variable {conditions : Conditions}
variable (made : (lowerAll dialect scope operands).result = .ok conditions)

include made

theorem lower_or : ∃ either, (lower dialect scope (.or operands)).result = .ok either ∧
    ∀ (ν : Type) [DecidableEq ν] (world : Context ν Statement) (frame : Frame ν),
      either.truth world 0 frame = .yes ↔ ∃ condition ∈ conditions, condition.truth world 0 frame = .yes := by
  cases operands with
  | nil =>
    cases made
    exact ⟨_, rfl, fun _ _ _ _ => by simp [Condition.truth]⟩
  | cons operand rest =>
    simp only [lower, result_bind, result_pure, made]
    exact ⟨_, rfl, fun _ _ _ _ => Context.truth_any⟩

theorem lower_and : ∃ both, (lower dialect scope (.and operands)).result = .ok both ∧
    ∀ (ν : Type) [DecidableEq ν] (world : Context ν Statement) (frame : Frame ν),
      both.truth world 0 frame = .yes ↔ world.Holds frame conditions := by
  cases operands with
  | nil =>
    cases made
    exact ⟨_, rfl, fun _ _ _ _ => by simp [Condition.truth]⟩
  | cons operand rest =>
    simp only [lower, result_bind, result_pure, made]
    exact ⟨_, rfl, fun _ _ _ _ => Context.truth_all⟩

end Connectives

end Predicate

/-- What engines make of nulls and of unequal values. -/
structure Engine.ComparesNulls {ν : Type} (db : Engine ν) : Prop where
  slot_null : db.slot (.value .null) = db.null
  equal_null : ∀ value, db.compare .equal value db.null = .unknown
  notEqual : ∀ first second, db.compare .notEqual first second = (db.compare .equal first second).not

namespace Truth

@[simp] theorem not_eq_yes {value : Truth} : value.not = .yes ↔ value = .no := by cases value <;> decide

@[simp] theorem any_eq_no {values : Multiset Truth} : any values = .no ↔ ∀ value ∈ values, value = .no := by
  unfold any
  grind [cases Truth]

end Truth

section Truth

variable {ν : Type} [DecidableEq ν] (world : Context ν Statement) (frame : Frame ν)

theorem truth_lowerMembership (left : Term) (values : List Json) :
    ((Predicate.lowerMembership left values false).truth world 0 frame = .yes ↔
      ∃ value ∈ values, world.db.compare .equal (left.eval world.db 0 frame) (world.db.slot (.value value)) = .yes) ∧
    ((Predicate.lowerMembership left values true).truth world 0 frame = .yes ↔
      ∀ value ∈ values, world.db.compare .equal (left.eval world.db 0 frame)
        (world.db.slot (.value value)) = .no) := by
  cases values <;>
    simp [Predicate.lowerMembership, Condition.truth, Truth.negateIf, Term.eval, Term.value, eq_comm (a := Truth.yes)]

theorem truth_against (nulls : world.db.ComparesNulls) (left absent : Term) (value : Json) :
    ((Predicate.against left absent false value).truth world 0 frame = .yes ↔
      world.db.compare .equal (left.eval world.db 0 frame) (world.db.slot (.value value)) = .yes ∨
        value = .null ∧ (Condition.isNull absent false).truth world 0 frame = .yes) ∧
    (world.db.compare .equal (left.eval world.db 0 frame) (world.db.slot (.value value)) = .no ↔
      value ≠ .null ∧ (Predicate.against left absent true value).truth world 0 frame = .yes) := by
  cases value with
  | null => simp [Predicate.against, nulls.slot_null, nulls.equal_null]
  | _ => simp [Predicate.against, Condition.truth, nulls.notEqual, Term.eval, Term.value]

end Truth

/-- Membership is repeated equality but for nulls. Where `in` is compiled, so are `not in` and the
equalities and inequalities with each value. One of the equalities holds exactly if `in` does, or if null
is among the values and the field has no value. `not in` holds exactly if all inequalities do, and never
if null is among the values. -/
theorem membership_repeats_equality (field : Field) (values : List Json) (declared : Option ValueType)
    (dialect : Dialect) (scope : Scope) {inside : Condition Statement}
    (made : (Predicate.lower dialect scope
      (.comparison field .isIn (.list values declared))).result = .ok inside) :
    ∃ outside equal unequal absent,
      (Predicate.lower dialect scope
        (.comparison field .notIn (.list values declared))).result = .ok outside ∧
      (Predicate.lower dialect scope (.or (values.map fun value =>
        .comparison field .equal (.literal value declared)))).result = .ok equal ∧
      (Predicate.lower dialect scope (.and (values.map fun value =>
        .comparison field .notEqual (.literal value declared)))).result = .ok unequal ∧
      (Predicate.lower dialect scope
        (.comparison field .equal (.literal .null declared))).result = .ok absent ∧
      ∀ (ν : Type) [DecidableEq ν] (world : Context ν Statement) (frame : Frame ν),
        world.db.ComparesNulls →
          (equal.truth world 0 frame = .yes ↔ inside.truth world 0 frame = .yes ∨
            .null ∈ values ∧ absent.truth world 0 frame = .yes) ∧
          (outside.truth world 0 frame = .yes ↔
            .null ∉ values ∧ unequal.truth world 0 frame = .yes) := by
  obtain ⟨left, absent, rfl, outside, each⟩ := Predicate.exists_against made
  have made (negated : Bool) : (Predicate.lowerAll dialect scope (values.map fun value =>
      .comparison field (if negated then .notEqual else .equal) (.literal value declared))).result =
        .ok (values.map (Predicate.against left absent negated)) :=
    Predicate.lowerAll_map_eq_ok fun value mem => each value (.tail _ mem) negated
  obtain ⟨equal, isEqual, ofEqual⟩ := Predicate.lower_or (made false)
  obtain ⟨unequal, isUnequal, ofUnequal⟩ := Predicate.lower_and (made true)
  refine ⟨_, equal, unequal, .isNull absent false, outside, isEqual, isUnequal,
    each .null (.head _) false, fun ν _ world frame nulls => ?_⟩
  obtain ⟨ofInside, ofOutside⟩ := truth_lowerMembership world frame left values
  have against (value : Json) := truth_against world frame nulls left absent value
  rw [ofEqual, ofInside, ofOutside, ofUnequal]
  constructor
  · simp only [mem_map, exists_exists_and_eq_and, (against _).1]
    constructor
    · rintro ⟨value, mem, equal | ⟨rfl, empty⟩⟩
      · exact .inl ⟨value, mem, equal⟩
      · exact .inr ⟨mem, empty⟩
    · rintro (⟨value, mem, equal⟩ | ⟨mem, empty⟩)
      · exact ⟨value, mem, .inl equal⟩
      · exact ⟨.null, mem, .inr ⟨rfl, empty⟩⟩
  · simp only [(against _).2, Context.Holds, forall_mem_map]
    constructor
    · intro each
      exact ⟨fun mem => (each .null mem).1 rfl, fun value mem => (each value mem).2⟩
    · rintro ⟨noNull, each⟩ value mem
      exact ⟨fun isNull => noNull (isNull ▸ mem), each value mem⟩

theorem Datum.engine_comparesNulls : db.ComparesNulls where
  slot_null := rfl
  equal_null value := by cases value <;> rfl
  notEqual first second := by
    cases first <;> cases second <;> simp [db, comparison, Comparator.holds, Truth.ofBool, Truth.not]
    all_goals split <;> rfl

/-- What a predicate on a person becomes. -/
def ofPerson (predicate : Predicate Nested) : Attempt (Condition Statement) :=
  (predicate.lower .sqlite (.ofTables [("p", .node)])).result

/-- The condition holds of bob, of whom nothing but the id is known. -/
def holdsOfBob (condition : Condition Statement) : Prop :=
  condition.truth (Datum.graph "people" [] []) 0 [(.node, [("id", .text "bob")])] = .yes

instance (condition : Condition Statement) : Decidable (holdsOfBob condition) := inferInstanceAs (Decidable (_ = _))

theorem bob_membership_repeats_equality :
    ∃ inside outside equal unequal absent,
      ofPerson (.comparison (.ofProperty "p" "name") .isIn (.list [.string "ada", .null] none)) = .ok inside ∧
      ofPerson (.comparison (.ofProperty "p" "name") .notIn (.list [.string "ada", .null] none)) = .ok outside ∧
      ofPerson (.or [.comparison (.ofProperty "p" "name") .equal (.literal (.string "ada") none),
        .comparison (.ofProperty "p" "name") .equal (.literal .null none)]) = .ok equal ∧
      ofPerson (.and [.comparison (.ofProperty "p" "name") .notEqual (.literal (.string "ada") none),
        .comparison (.ofProperty "p" "name") .notEqual (.literal .null none)]) = .ok unequal ∧
      (holdsOfBob equal ↔ holdsOfBob inside ∨ holdsOfBob absent) ∧ ¬ holdsOfBob outside := by
  obtain ⟨outside, equal, unequal, absent, isOutside, isEqual, isUnequal, -, same⟩ :=
    membership_repeats_equality (.ofProperty "p" "name") [.string "ada", .null] none .sqlite
      (.ofTables [("p", .node)]) rfl
  refine ⟨_, outside, equal, unequal, absent, rfl, isOutside, isEqual, isUnequal, ?_⟩
  simpa [holdsOfBob] using same Datum (Datum.graph "people" [] []) [(.node, [("id", .text "bob")])]
    Datum.engine_comparesNulls

/-- Bob has no name, which is equal to null but not in a list of null. The id of bob differs from ada and
from null, but is not outside of a list of both. -/
theorem bob_null_in_list :
    ∃ inside equal outside unequal,
      ofPerson (.comparison (.ofProperty "p" "name") .isIn (.list [.null] none)) = .ok inside ∧
      ofPerson (.or [.comparison (.ofProperty "p" "name") .equal (.literal .null none)]) = .ok equal ∧
      ofPerson (.comparison (.ofColumn "p" "id") .notIn (.list [.string "ada", .null] none)) =
        .ok outside ∧
      ofPerson (.and [.comparison (.ofColumn "p" "id") .notEqual (.literal (.string "ada") none),
        .comparison (.ofColumn "p" "id") .notEqual (.literal .null none)]) = .ok unequal ∧
      ¬ holdsOfBob inside ∧ holdsOfBob equal ∧ ¬ holdsOfBob outside ∧ holdsOfBob unequal :=
  ⟨_, _, _, _, rfl, rfl, rfl, rfl, by decide, by decide, by decide, by decide⟩

end GraphSql
