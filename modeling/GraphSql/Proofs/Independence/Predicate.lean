import GraphSql.Proofs.Editing
import GraphSql.Proofs.Independence.Outline

namespace GraphSql

open Condition Function

/-- One value for each type; null stays. -/
def Json.masked : Json → Json
  | .null => .null
  | .bool _ => .bool false
  | .number _ => .ofNat 0
  | .string _ => .string ""
  | .array _ => .array []
  | .object _ => .object []

/-- The operand with masked values; a list keeps its length. -/
def Operand.masked : Operand → Operand
  | .literal (.array items) valueType => .literal (.array (items.map Json.masked)) valueType
  | .literal value valueType => .literal value.masked valueType
  | .list values valueType => .list (values.map Json.masked) valueType
  | .parameter name valueType => .parameter name valueType

@[simp] theorem ValueType.ofJson_masked (value : Json) : ofJson value.masked = ofJson value := by
  cases value <;> rfl

theorem literalType_congr {values others : List Json}
    (types : values.map ValueType.ofJson = others.map ValueType.ofJson)
    (known : Option ValueType) : literalType known values = literalType known others := by
  induction values generalizing others known with
  | nil =>
    cases others with
    | nil => rfl
    | cons other rest => simp at types
  | cons value rest ih =>
    cases others with
    | nil => simp at types
    | cons other others =>
      simp only [List.map_cons, List.cons.injEq] at types
      unfold literalType
      rw [types.1]
      split
      · exact ih types.2 _
      · exact ih types.2 _
      · split
        · exact ih types.2 _
        · rfl

namespace Operand

@[simp] theorem explicitType_masked (operand : Operand) : operand.masked.explicitType = operand.explicitType := by
  rcases operand with ⟨_ | _ | _ | _ | _ | _, _⟩ | _ | _ <;> rfl

variable (operand : Operand) (asList : Bool)

theorem types_literals_masked : (operand.masked.literals asList).map ValueType.ofJson =
      (operand.literals asList).map ValueType.ofJson := by
  cases operand with
  | literal value valueType =>
    cases value with
    | array items =>
      cases asList with
      | false => rfl
      | true => simp [masked, literals]
    | null | bool | number | string | object => rfl
  | list values valueType => simp [masked, literals]
  | parameter name valueType => rfl

@[simp] theorem type_masked : operand.masked.type asList = operand.type asList := by
  unfold Operand.type
  rw [explicitType_masked, literalType_congr (operand.types_literals_masked asList)]

@[simp] theorem containerType_masked : operand.masked.containerType asList = operand.containerType asList := by
  simp only [containerType, types_literals_masked]

end Operand

@[simp] theorem Term.blank_value (value : Json) : (Term.value value).blank = .value .null := rfl

/-- Whether a transform takes a value depends on the type of the value only. -/
theorem Transform.isSome_apply (transform : Transform) (value : Json) :
    (transform.apply value).isSome = (transform == .identity || ValueType.ofJson value == .string) := by
  cases transform <;> cases value <;> rfl

namespace Operand

theorem term_literal_agree {value other : Json}
    (type : ValueType.ofJson value = ValueType.ofJson other) (valueType : Option ValueType)
    (transform : Transform) :
    AgreeOn Term.blank ((literal value valueType).term transform) ((literal other valueType).term transform) := by
  have taken : (transform.apply value).isSome = (transform.apply other).isSome := by
    rw [transform.isSome_apply, transform.isSome_apply, type]
  unfold term
  cases found : transform.apply value <;> cases others : transform.apply other <;> simp_all

theorem term_masked (operand : Operand) (transform : Transform) :
    AgreeOn Term.blank (operand.term transform) (operand.masked.term transform) := by
  cases operand with
  | literal value valueType =>
    cases value with
    | null | bool | number | string | array | object =>
      refine term_literal_agree ?_ valueType transform
      rfl
  | list values valueType => trivial
  | parameter name valueType => exact (rfl : Term.blank _ = _)

/-- A masked operand has the types of the operand and becomes terms of the same outline. -/
theorem masked_compares (operand : Operand) :
    operand.ComparesFully Agree (fun term other => term.blank = other.blank) operand.masked where
  explicitType := operand.explicitType_masked
  type := operand.type_masked
  containerType := operand.containerType_masked
  isNull := by rcases operand with ⟨_ | _ | _ | _ | _ | _, _⟩ | _ | _ <;> rfl
  term := operand.term_masked .identity
  elements := by
    have single {first second : Attempt Term} (agree : AgreeOn Term.blank first second) :
        Agree (List.Forall₂ fun term other => term.blank = other.blank) (first.map ([·]))
          (second.map ([·])) := agree.bind fun _ _ same => .cons same .nil
    have mem (values : List Json) : List.Forall₂ (fun term other => term.blank = other.blank)
        (values.map Term.value) ((values.map Json.masked).map Term.value) := by
      simp
    have identity := operand.term_masked .identity
    cases operand with
    | literal value valueType =>
      cases value with
      | array items => exact mem items
      | null | bool | number | string | object => exact single identity
    | list values valueType => exact mem values
    | parameter name valueType => exact single identity
  pattern := operand.term_masked
  values field op := by
    have mem (values : List Json) : List.Forall₂ (fun first second =>
        (Term.value first).blank = (Term.value second).blank) values (values.map Json.masked) := by
      simp
    cases operand with
    | literal value valueType =>
      cases value with
      | array items => exact mem items
      | null | bool | number | string | object => exact .cons rfl .nil
    | list values valueType => exact mem values
    | parameter name valueType => trivial

end Operand

variable {σ τ ι : Type} {revision : Revision σ τ}

def VectorSearch.revise (revision : Revision σ τ) (vector : VectorSearch) : VectorSearch :=
  ⟨vector.pointer, vector.search.revise revision⟩

/-- The decisions with another search and another point in time. -/
def Decisions.revise (revision : Revision σ τ) (now : Option Term) (picks : Decisions) : Decisions :=
  { picks with vector := picks.vector.map (VectorSearch.revise revision), now }

namespace Block

variable {block : Block σ}

@[simp] theorem aliasName_revise : (block.revise revision).start.aliasName = block.start.aliasName := rfl

@[simp] theorem aliases_revise : (block.revise revision).aliases = block.aliases := by
  rw [← edited_ofRevision, aliases_edited]

@[simp] theorem elementOf_revise : (block.revise revision).elementOf = block.elementOf := by
  rw [← edited_ofRevision, elementOf_edited]

@[simp] theorem ownerOf_revise : (block.revise revision).ownerOf = block.ownerOf := by
  rw [← edited_ofRevision, ownerOf_edited]

theorem placedAt_revise (placements : List (Option String)) (place : Option String) :
    (block.revise revision).placedAt placements place =
      (block.placedAt placements place).map (Predicate.revise revision) := by
  have same : Predicate.edited (.ofRevision revision) = Predicate.revise revision :=
    funext fun predicate => congrArg (Predicate.revise revision) predicate.respell_same
  rw [← edited_ofRevision, placedAt_edited, same]

@[simp] theorem isWalk_revise : (block.revise revision).isWalk = block.isWalk := by
  simp [isWalk, revise, Traversal.revise, comp_def]

@[simp] theorem isSingleHop_revise : (block.revise revision).isSingleHop = block.isSingleHop := by
  unfold isSingleHop
  cases hops : block.traversals with
  | nil => simp [revise, hops]
  | cons hop rest => cases rest <;> simp [revise, hops, Traversal.revise]

theorem withoutWalks_revise : (block.revise revision).withoutWalks = block.withoutWalks.revise revision := by
  simp [withoutWalks, revise, Traversal.revise, comp_def]

theorem onlyWalk_revise : (block.revise revision).onlyWalk =
      block.onlyWalk.map fun (hop, walk) => (hop.revise revision, walk) := by
  rw [← edited_ofRevision, onlyWalk_edited]
  rfl

variable {opts changed : Options}

theorem analyzeChain_revise (keeps : revision.KeepsFixed) (dialect : changed.dialect = opts.dialect) :
    ((block.revise revision).analyzeChain changed).result = (block.analyzeChain opts).result.map fun (picks, plan) =>
        (picks.revise revision ((block.revise revision).temporal.now changed), plan) := by
  rw [← edited_ofRevision, analyzeChain_edited (fun _ => _) dialect rfl keeps]
  exact Traced.result_map ..

theorem analyzeWalk_revise (dialect : changed.dialect = opts.dialect) :
    ((block.revise revision).analyzeWalk changed).result = (block.analyzeWalk opts).result.map fun (picks, plan) =>
        (picks.revise revision ((block.revise revision).temporal.now changed), plan) := by
  rw [← edited_ofRevision, analyzeWalk_edited (fun _ => _) dialect rfl]
  exact Traced.result_map ..

end Block

/-- Values are masked, kinds are renamed, and nested queries are replaced. -/
def Revision.masking (rename : String → String) (nested : σ → τ) : Revision σ τ where
  operand := Operand.masked
  embedding _ := []
  score _ := 0
  kind := rename
  graph _ := ""
  timestamp _ := ""
  nested

/-- Two nested queries with the same columns agree on their statements. -/
structure Nested.Alike (text : Statement → τ) (first second : Nested) : Prop where
  projection : first.projection = second.projection
  outcome : AgreeOn text first.outcome.result second.outcome.result

variable {text : Statement → τ}

theorem Condition.Form.outline_fill {ω : Type} (f : ω → τ) (form : Form) (term : Term) (values : List Term) :
    (form.fill term values).outline f = form.fill term.blank (values.map Term.blank) := by
  cases form <;> rcases values with _ | ⟨value, _ | ⟨other, _ | ⟨third, rest⟩⟩⟩ <;> rfl

theorem Condition.outlineAll_of_forall₂ {conditions others : Conditions}
    (each : List.Forall₂ (fun condition other => condition.outline text = other.outline text)
      conditions others) : outlineAll text conditions = outlineAll text others := by
  induction each with
  | nil => rfl
  | cons head tail ih => simp only [outlineAll, head, ih]

theorem simulation_outline (text : Statement → τ) : FullSimulation Agree (fun term other => term.blank = other.blank)
      (fun term other => term.blank = other.blank)
      (fun statement other => text statement = text other)
      (fun condition other => condition.outline text = other.outline text) where
  toSequential := sequential_agree
  extract pointer extraction same := congrArg (Term.extract · pointer extraction) same
  aggregate function same := congrArg (Term.aggregate function) same
  arrayLength pointer same := congrArg (Term.arrayLength · pointer) same
  orZero same := congrArg Term.orZero same
  zero := rfl
  constant _ := rfl
  fill form same each := by
    rw [form.outline_fill, form.outline_fill, same]
    refine congrArg (form.fill _) ?_
    induction each with
    | nil => rfl
    | cons head tail ih => rw [List.map_cons, List.map_cons, head, ih]
  all each := congrArg all (outlineAll_of_forall₂ each)
  any each := congrArg any (outlineAll_of_forall₂ each)
  notAll same := congrArg (fun condition => notAll [condition]) same
  subquery negated same := congrArg (subquery · negated) same
  inSubquery negated same inner := congrArg₂ (inSubquery · · negated) same inner

namespace Predicate

variable {rename : String → String} {first second : ι → Nested}

/-- Masked values, renamed kinds and nested queries that agree do not change the outline of a
condition. -/
theorem lower_masked (dialect : Dialect) (scope : Scope) (predicate : Predicate ι)
    (alike : ∀ inner ∈ predicate.nested, (first inner).Alike text (second inner)) :
    AgreeOn (outline text) ((predicate.revise (.plain first)).lower dialect scope).result
      ((predicate.revise (.masking rename second)).lower dialect scope).result :=
  (simulation_outline text).lower dialect rfl Operand.masked_compares predicate
    (fun _ _ _ _ => agreeOn_refl _ _) fun inner mem => ⟨(alike inner mem).projection, (alike inner mem).outcome⟩

theorem lowerAll_masked (dialect : Dialect) (scope : Scope) (operands : List (Predicate ι))
    (alike : ∀ inner ∈ nestedOf operands, (first inner).Alike text (second inner)) :
    AgreeOn (outlineAll text) (lowerAll dialect scope (reviseAll (.plain first) operands)).result
      (lowerAll dialect scope (reviseAll (.masking rename second) operands)).result := by
  rw [nestedOf_eq_flatMap, List.forall_mem_flatMap] at alike
  rw [reviseAll_eq_map, reviseAll_eq_map]
  exact ((simulation_outline text).lowerAll dialect fun operand mem =>
    lower_masked dialect scope operand (alike operand mem)).mono fun _ _ => outlineAll_of_forall₂

end Predicate

end GraphSql
