import GraphSql.Compile
import GraphSql.Proofs.Parameters.Text

namespace GraphSql

open Condition Fragment List Traced

variable {σ : Type}

/-- A value that is neither null nor an array nor an object. -/
def Json.isScalar : Json → Bool
  | .bool _ | .number _ | .string _ => true
  | .null | .array _ | .object _ => false

/-- The operand itself, or a parameter of the declared type in the place of a scalar literal. -/
inductive Operand.Abstracts (given : String → Json → Prop) : Operand → Operand → Prop
  | same (operand : Operand) : Operand.Abstracts given operand operand
  | named {name : String} {value : Json} {valueType : ValueType} (scalar : value.isScalar = true)
      (meant : given name value) :
      Operand.Abstracts given (.literal value (some valueType)) (.parameter name (some valueType))

/-- The second predicate has parameters in the place of some scalar literals of the first one. The sets
that `in` looks a value up in and the nested queries stay as they are. -/
inductive Predicate.Abstracts (given : String → Json → Prop) : Predicate σ → Predicate σ → Prop
  | same (predicate : Predicate σ) : Predicate.Abstracts given predicate predicate
  | comparison {field : Field} {op : Comparison} {value other : Operand}
      (single : op.isMembership = false) (abstracts : value.Abstracts given other) :
      Predicate.Abstracts given (.comparison field op value) (.comparison field op other)
  | text {field : Field} {op : TextOperator} {pattern other : Operand} (abstracts : pattern.Abstracts given other) :
      Predicate.Abstracts given (.text field op pattern) (.text field op other)
  | between {field : Field} {least other greatest another : Operand}
      (lower : least.Abstracts given other) (upper : greatest.Abstracts given another) :
      Predicate.Abstracts given (.between field least greatest) (.between field other another)
  | array {field : Field} {op : ArrayOperator} {values others : List Operand}
      (each : List.Forall₂ (Operand.Abstracts given) values others) :
      Predicate.Abstracts given (.array field op values) (.array field op others)
  | object {field : Field} {op : ObjectOperator} {pointer : Pointer} {value other : Operand}
      (abstracts : value.Abstracts given other) :
      Predicate.Abstracts given (.object field op pointer (some value)) (.object field op pointer (some other))
  | aggregate {expression : Aggregate} {op : Comparison} {value other : Operand}
      (abstracts : value.Abstracts given other) :
      Predicate.Abstracts given (.aggregate expression op value) (.aggregate expression op other)
  | and {operands others : List (Predicate σ)} (each : List.Forall₂ (Predicate.Abstracts given) operands others) :
      Predicate.Abstracts given (.and operands) (.and others)
  | or {operands others : List (Predicate σ)} (each : List.Forall₂ (Predicate.Abstracts given) operands others) :
      Predicate.Abstracts given (.or operands) (.or others)
  | not {operand other : Predicate σ} (abstracts : Predicate.Abstracts given operand other) :
      Predicate.Abstracts given (.not operand) (.not other)

variable {given : String → Json → Prop}

/-- A scalar is no container, and neither is what a parameter stands for. Both operands become terms, or
neither does, where values are taken as they are. -/
theorem Operand.Abstracts.compares {operand other : Operand} (abstracts : operand.Abstracts given other)
    (dialect : Dialect) :
    operand.Compares Agree
      (fun first second => (first.print dialect).Abstracts given (second.print dialect)) other := by
  cases abstracts with
  | same => exact (operand.comparesFully_self sequential_agree fun _ _ => .refl given _).toCompares
  | named scalar meant =>
    rename_i name value valueType
    have term : ((Term.value value).print dialect).Abstracts given
      ((Term.slot (.named name .identity)).print dialect) := .cons (.slot (.named meant rfl)) .nil
    cases value with
    | bool | number | string => exact ⟨rfl, fun _ => rfl, fun _ => rfl, rfl, term, .cons term .nil⟩
    | null | array | object => cases scalar

/-- Where known values compile, names do as well and the results are related. Where only the names
compile, their result is one that refuses a value. -/
def Resembles {α β : Type} (related : α → β → Prop) (refuses : β → Prop)
    (known : Attempt α) (named : Attempt β) : Prop :=
  (∀ value, known = .ok value → ∃ other, named = .ok other ∧ related value other) ∧
    ∀ error, known = .error error → Returns named refuses

section Resembles

variable {α β γ δ : Type} {related : α → β → Prop} {refuses : β → Prop} {after : γ → δ → Prop}
  {refusesAfter : δ → Prop} {known : Attempt α} {named : Attempt β}

theorem Agree.resembles (agree : Agree related known named) : Resembles related refuses known named := by
  refine ⟨fun value returned => agree.exists_ok returned, ?_⟩
  intro error failed
  subst failed
  cases named with
  | ok other => exact agree.elim
  | error found => trivial

theorem resembles_error (error : CompileError) (returned : Returns named refuses) :
    Resembles related refuses (.error error) named :=
  ⟨fun _ impossible => (by cases impossible), fun _ _ => returned⟩

variable {next : α → Attempt γ}

theorem Resembles.bind (resembles : Resembles related refuses known named) {other : β → Attempt δ}
    (follow : ∀ value returned, related value returned → Resembles after refusesAfter (next value) (other returned))
    (refused : ∀ returned, refuses returned → Returns (other returned) refusesAfter) :
    Resembles after refusesAfter (known >>= next) (named >>= other) := by
  cases known with
  | ok value =>
    obtain ⟨returned, rfl, holds⟩ := resembles.1 value rfl
    exact follow value returned holds
  | error error =>
    apply resembles_error
    rw [returns_bind]
    exact (resembles.2 error rfl).imp refused

theorem resembles_bind_same {computation : Attempt α} {other : α → Attempt δ}
    (follow : ∀ value, Resembles after refusesAfter (next value) (other value)) :
    Resembles after refusesAfter (computation >>= next) (computation >>= other) := by
  cases computation with
  | ok value => exact follow value
  | error error => exact resembles_error error trivial

theorem Resembles.map {f : α → γ} {g : β → δ} (resembles : Resembles (fun value other => after (f value) (g other))
      (fun other => refusesAfter (g other)) known named) :
    Resembles after refusesAfter (known.map f) (named.map g) := by
  cases known with
  | ok value =>
    obtain ⟨other, rfl, holds⟩ := resembles.1 value rfl
    exact (agree_ok (f value) (g other) |>.mpr holds).resembles
  | error error =>
    apply resembles_error
    rw [returns_mapOk]
    exact resembles.2 error rfl

theorem resembles_pure {value : α} {other : β} (holds : related value other) :
    Resembles related refuses (pure value) (pure other) :=
  (agree_pure value other |>.mpr holds).resembles

end Resembles

/-- The text of a condition. -/
def Condition.written (dialect : Dialect) (schema : Schema) (condition : Condition Statement) : Fragment :=
  (condition.map (Statement.print dialect schema)).print dialect

/-- The text of the second condition has names in the place of some known values. -/
def Condition.Abstracts (given : String → Json → Prop) (dialect : Dialect) (schema : Schema)
    (first second : Condition Statement) : Prop :=
  (first.written dialect schema).Abstracts given (second.written dialect schema)

namespace Predicate

variable {dialect : Dialect} {schema : Schema} {scope : Scope} {field : Field} {value other : Operand}

theorem fields_self (field : Field) : field.Compares Agree Eq scope scope :=
  fun _ _ => agree_self (returns_all fun _ => rfl)

theorem agree_refl (computation : Attempt (Condition Statement)) :
    Agree (Condition.Abstracts given dialect schema) computation computation :=
  agree_self (returns_all fun _ => Fragment.Abstracts.refl given _)

/-- Conditions that test one term have names in the place of known values where their operands do. -/
theorem simulation_abstracts (given : String → Json → Prop) (dialect : Dialect) (schema : Schema) :
    Simulation Agree Eq (fun first second => (first.print dialect).Abstracts given (second.print dialect))
      (Condition.Abstracts given dialect schema) where
  toSequential := sequential_agree
  extract pointer extraction same := congrArg (Term.extract · pointer extraction) same
  aggregate function same := congrArg (Term.aggregate function) same
  arrayLength pointer same := congrArg (Term.arrayLength · pointer) same
  orZero same := congrArg Term.orZero same
  zero := .refl given _
  constant _ := .refl given _
  fill form same each := by
    subst same
    have printed := forall₂_map_left_iff.mpr (forall₂_map_right_iff.mpr each)
    cases form with
    | isNull | hasPath | pathIsNull => cases each <;> exact Fragment.Abstracts.refl given _
    | isIn negated => exact ((Fragment.Abstracts.join ", " printed).prepend _).extend _
    | arrayContainsAll pointer elementType => exact dialect.arrayContainsAll_abstracts _ pointer elementType printed
    | arrayContainsAny pointer elementType => exact dialect.arrayContainsAny_abstracts _ pointer elementType printed
    | compare | between | like | ilike | arrayContains =>
      -- Another number of operands leaves nothing to test.
      rcases each with _ | ⟨head, _ | ⟨further, _ | ⟨third, rest⟩⟩⟩ <;> first
        | exact Fragment.Abstracts.refl given _
        | exact Fragment.Abstracts.prepend _ head
        | exact ((Fragment.Abstracts.prepend _ head).extend _).append further
        | exact dialect.like_abstracts _ head
        | exact dialect.ilike_abstracts _ head
        | exact dialect.arrayContains_abstracts _ _ _ head

theorem slots_text_subset (op : TextOperator) (text pattern : Term) : (pattern.print dialect).slots ⊆
      ((op.form.fill text [pattern] : Condition Statement).written dialect schema).slots := by
  unfold TextOperator.form
  split
  · exact dialect.slots_like_subset _ _
  · exact dialect.slots_ilike_subset _ _

/-- A literal pattern that is no string is refused at once, and a named one when it is bound. -/
theorem lowerText_abstracts (op : TextOperator) (abstracts : value.Abstracts given other) :
    Resembles (Condition.Abstracts given dialect schema)
      (fun condition => (condition.written dialect schema).Refuses given)
      (lowerText dialect scope field op value)
      (lowerText dialect scope field op other) := by
  cases abstracts with
  | same => exact (agree_refl _).resembles
  | named scalar meant =>
    rename_i name value valueType
    rw [lowerText_eq, lowerText_eq]
    refine resembles_bind_same fun _ => resembles_bind_same fun text => ?_
    simp only [Operand.term]
    cases applied : (patternTransform dialect op).apply value with
    | some result =>
      exact resembles_pure ((simulation_abstracts given dialect schema).fill op.form rfl
        (.cons (.cons (.slot (.named meant applied)) .nil) .nil))
    | none =>
      have refuses : Fragment.Refuses given ((Term.slot (.named name (patternTransform dialect op))).print dialect) :=
        ⟨name, _, value, mem_singleton_self _, meant, applied⟩
      exact resembles_error _ (refuses.of_subset (slots_text_subset op text _))

theorem printAll_mapAll (conditions : Conditions) :
    printAll dialect (Condition.mapAll (Statement.print dialect schema) conditions) =
      conditions.map (written dialect schema) := by
  induction conditions with
  | nil => rfl
  | cons condition rest ih =>
    simp only [Condition.mapAll, printAll, ih, map_cons]
    rfl

section Connectives

variable (separator : String) {conditions results : Conditions}

theorem join_abstracts (each : List.Forall₂ (Condition.Abstracts given dialect schema) conditions results) :
    (join separator (conditions.map (written dialect schema))).parenthesized.Abstracts
      given (join separator (results.map (written dialect schema))).parenthesized :=
  (Fragment.Abstracts.join separator (forall₂_map_left_iff.mpr (forall₂_map_right_iff.mpr each))).parenthesized

theorem join_refuses (refused : ∃ condition ∈ conditions, (condition.written dialect schema).Refuses given) :
    (join separator (conditions.map (written dialect schema))).parenthesized.Refuses
      given := by
  obtain ⟨condition, mem, refuses⟩ := refused
  apply refuses.of_subset
  rw [slots_parenthesized]
  exact slots_join_subset separator (mem_map_of_mem mem)

end Connectives

section Written

variable (conditions : Conditions)

theorem written_all : (Condition.all conditions).written dialect schema =
    (join " AND " (conditions.map (written dialect schema))).parenthesized := by
  simp [written, Condition.map, print, printConjuncts, printAll_mapAll]

theorem written_any : (Condition.any conditions).written dialect schema =
    (join " OR " (conditions.map (written dialect schema))).parenthesized := by
  simp [written, Condition.map, print, printAll_mapAll]

theorem written_notAll : (notAll conditions).written dialect schema = "NOT " ++
    (join " AND " (conditions.map (written dialect schema))).parenthesized := by
  simp [written, Condition.map, print, printConjuncts, printAll_mapAll]

end Written

/-- What lowering gives for a predicate, and for one with parameters in it. -/
abbrev LoweredAlike (given : String → Json → Prop) (dialect : Dialect) (schema : Schema) :
    Attempt (Condition Statement) → Attempt (Condition Statement) → Prop :=
  Resembles (Condition.Abstracts given dialect schema)
    fun condition => (condition.written dialect schema).Refuses given

abbrev LoweredAllAlike (given : String → Json → Prop) (dialect : Dialect) (schema : Schema) :
    Attempt Conditions → Attempt Conditions → Prop :=
  Resembles (List.Forall₂ (Condition.Abstracts given dialect schema))
    fun conditions => ∃ condition ∈ conditions, (condition.written dialect schema).Refuses given

section

variable {known named : Attempt Conditions}
variable (alike : LoweredAllAlike given dialect schema known named)

include alike

theorem LoweredAllAlike.all : LoweredAlike given dialect schema (known >>= fun conditions => pure (.all conditions))
      (named >>= fun conditions => pure (.all conditions)) := by
  refine Resembles.bind alike (fun conditions others each => resembles_pure ?_) ?_
  · rw [Condition.Abstracts, written_all, written_all]
    exact join_abstracts " AND " each
  · intro conditions refused
    rw [returns_pure, written_all]
    exact join_refuses " AND " refused

theorem LoweredAllAlike.any : LoweredAlike given dialect schema (known >>= fun conditions => pure (.any conditions))
      (named >>= fun conditions => pure (.any conditions)) := by
  refine Resembles.bind alike (fun conditions others each => resembles_pure ?_) ?_
  · rw [Condition.Abstracts, written_any, written_any]
    exact join_abstracts " OR " each
  · intro conditions refused
    rw [returns_pure, written_any]
    exact join_refuses " OR " refused

end

theorem LoweredAlike.notAll {known named : Attempt (Condition Statement)}
    (alike : LoweredAlike given dialect schema known named) :
    LoweredAlike given dialect schema (known >>= fun condition => pure (.notAll [condition]))
      (named >>= fun condition => pure (.notAll [condition])) := by
  refine Resembles.bind alike (fun condition other abstracts => resembles_pure ?_) ?_
  · rw [Condition.Abstracts, written_notAll, written_notAll]
    exact (join_abstracts " AND " (.cons abstracts .nil)).prepend _
  · intro condition refused
    rw [returns_pure, written_notAll]
    refine (join_refuses " AND " ⟨condition, mem_singleton_self _, refused⟩).of_subset ?_
    rw [slots_append]
    exact subset_append_right _ _

mutual

/-- Parameters lower like the literals that they replace, but for patterns that are no strings. -/
theorem lower_abstracts {predicate other : Predicate Nested} :
    predicate.Abstracts given other → LoweredAlike given dialect schema
      (predicate.lower dialect scope).result (other.lower dialect scope).result
  | .same predicate => (agree_refl _).resembles
  | .comparison single abstracts => by
    refine ((simulation_abstracts given dialect schema).lowerComparison (fields_self _)
      (abstracts.compares dialect) fun membership => ?_).resembles
    rw [single] at membership
    cases membership
  | .text abstracts => lowerText_abstracts _ abstracts
  | .between lower upper => ((simulation_abstracts given dialect schema).lowerBetween (fields_self _)
      (lower.compares dialect) (upper.compares dialect)).resembles
  | .array each => ((simulation_abstracts given dialect schema).lowerArray (fields_self _) _
      (each.imp fun _ _ abstracts => abstracts.compares dialect)).resembles
  | .object abstracts => ((simulation_abstracts given dialect schema).lowerObject (fields_self _) _ _
      (.some (abstracts.compares dialect))).resembles
  | .aggregate abstracts => ((simulation_abstracts given dialect schema).lowerAggregate (fields_self _)
      rfl _ (abstracts.compares dialect)).resembles
  | .and .nil => (agree_refl _).resembles
  | .and (.cons head tail) => by
    simp only [lower, result_bind, result_pure]
    exact (lowerAll_abstracts (.cons head tail)).all
  | .or .nil => (agree_refl _).resembles
  | .or (.cons head tail) => by
    simp only [lower, result_bind, result_pure]
    exact (lowerAll_abstracts (.cons head tail)).any
  | .not abstracts => by
    simp only [lower, result_bind, result_pure]
    exact (lower_abstracts abstracts).notAll

theorem lowerAll_abstracts {operands others : List (Predicate Nested)} :
    List.Forall₂ (Predicate.Abstracts given) operands others → LoweredAllAlike given dialect schema
      (lowerAll dialect scope operands).result (lowerAll dialect scope others).result
  | .nil => resembles_pure .nil
  | .cons head tail => by
    simp only [lowerAll, result_bind, result_pure]
    refine Resembles.bind (lower_abstracts head) (fun condition other first => ?_) ?_
    · refine Resembles.bind (lowerAll_abstracts tail) (fun rest others each => resembles_pure (.cons first each)) ?_
      rintro others ⟨found, mem, refuses⟩
      exact ⟨found, mem_cons_of_mem _ mem, refuses⟩
    · intro other refuses
      rw [returns_bind]
      apply returns_all
      intro others
      exact ⟨other, mem_cons_self, refuses⟩

end

mutual

theorem Abstracts.map {τ : Type} (f : σ → τ) {predicate other : Predicate σ} :
    predicate.Abstracts given other → (predicate.map f).Abstracts given (other.map f)
  | .same predicate => .same _
  | .comparison single abstracts => .comparison single abstracts
  | .text abstracts => .text abstracts
  | .between lower upper => .between lower upper
  | .array each => .array each
  | .object abstracts => .object abstracts
  | .aggregate abstracts => .aggregate abstracts
  | .and each => by simpa only [Predicate.map] using Abstracts.and (Abstracts.mapAll f each)
  | .or each => by simpa only [Predicate.map] using Abstracts.or (Abstracts.mapAll f each)
  | .not abstracts => by simpa only [Predicate.map] using Abstracts.not (Abstracts.map f abstracts)

theorem Abstracts.mapAll {τ : Type} (f : σ → τ) {operands others : List (Predicate σ)} :
    List.Forall₂ (Predicate.Abstracts given) operands others →
      List.Forall₂ (Predicate.Abstracts given) (Predicate.mapAll f operands) (Predicate.mapAll f others)
  | .nil => by simp [Predicate.mapAll]
  | .cons head tail => by
    simpa only [Predicate.mapAll] using List.Forall₂.cons (Abstracts.map f head) (Abstracts.mapAll f tail)

end

end Predicate

end GraphSql
