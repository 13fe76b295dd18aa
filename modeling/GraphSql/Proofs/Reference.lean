import GraphSql.Statement.Select
import Mathlib.Data.List.Basic

namespace GraphSql

open Condition

variable {reads : Reference → Prop} {σ τ : Type}

/-- A name by which a term reads a column. -/
inductive Reference where
  | column (row : Row) (name : String)
  | bare (name : String)
  | output (name : String)
  deriving DecidableEq, Repr

/-- The columns that a term reads, in order. -/
def Term.references : Term → List Reference
  | .column row name => [.column row name]
  | .bare name => [.bare name]
  | .output name => [.output name]
  | .integer _ | .slot _ | .now => []
  | .successor term | .orZero term | .aggregate _ term | .extract term _ _ | .arrayLength term _ |
    .pathStart term => references term
  | .pathExtend path id => references path ++ references id
  | .distance _ embedding vector => references embedding ++ references vector

namespace Term

@[simp] theorem references_value (value : Json) : (Term.value value).references = [] := rfl

@[simp] theorem references_text (value : String) : (Term.text value).references = [] := rfl

@[simp] theorem references_ofColumn (element : Element) (column : Column) :
    (Term.ofColumn element column).references = [.column (.ofElement element) column.name] := rfl

/-- Every column that the term reads is admitted. -/
def Reads (reads : Reference → Prop) (term : Term) : Prop := ∀ reference ∈ term.references, reads reference

@[simp] theorem reads_value (value : Json) : (Term.value value).Reads reads := by simp [Reads]

end Term

variable {condition : Condition σ} {holds : τ → Prop} (conditions : List (Condition σ))

namespace Condition

mutual

/-- The columns that a condition reads itself, in order. -/
def references : Condition σ → List Reference
  | .constant _ => []
  | .compare left _ right => left.references ++ right.references
  | .isNull term _ => term.references
  | .isIn term values _ => term.references ++ values.flatMap Term.references
  | .between term lower upper => term.references ++ lower.references ++ upper.references
  | .like text pattern => text.references ++ pattern.references
  | .ilike text pattern => text.references ++ pattern.references
  | .arrayContains document _ _ value => document.references ++ value.references
  | .arrayContainsAll document _ _ values => document.references ++ values.flatMap Term.references
  | .arrayContainsAny document _ _ values => document.references ++ values.flatMap Term.references
  | .hasPath document _ => document.references
  | .pathIsNull document _ _ => document.references
  | .offPath path id => path.references ++ id.references
  | .all conditions => referencesOf conditions
  | .any conditions => referencesOf conditions
  | .notAll conditions => referencesOf conditions
  | .equalsCase term guard first second =>
      term.references ++ references guard ++ first.references ++ second.references
  | .subquery .. => []
  | .inSubquery term _ _ => term.references

def referencesOf : List (Condition σ) → List Reference
  | [] => []
  | condition :: rest => references condition ++ referencesOf rest

end

mutual

/-- The statements nested in a condition, in order. -/
def nested : Condition σ → List σ
  | .constant _ | .compare .. | .isNull .. | .isIn .. | .between .. | .like .. | .ilike .. |
    .arrayContains .. | .arrayContainsAll .. | .arrayContainsAny .. | .hasPath .. |
    .pathIsNull .. | .offPath .. => []
  | .all conditions => nestedOf conditions
  | .any conditions => nestedOf conditions
  | .notAll conditions => nestedOf conditions
  | .equalsCase _ guard _ _ => nested guard
  | .subquery statement _ => [statement]
  | .inSubquery _ statement _ => [statement]

def nestedOf : List (Condition σ) → List σ
  | [] => []
  | condition :: rest => nested condition ++ nestedOf rest

end

theorem referencesOf_eq_flatMap : referencesOf conditions = conditions.flatMap references := by
  induction conditions with
  | nil => rfl
  | cons condition rest ih => simp [referencesOf, ih]

theorem nestedOf_eq_flatMap : nestedOf conditions = conditions.flatMap nested := by
  induction conditions with
  | nil => rfl
  | cons condition rest ih => simp [nestedOf, ih]

theorem mapAll_eq_map (f : σ → τ) (conditions : List (Condition σ)) : mapAll f conditions = conditions.map (map f) := by
  induction conditions with
  | nil => rfl
  | cons condition rest ih => simp [mapAll, ih]

@[induction_eliminator] theorem induction {motive : Condition σ → Prop} (constant : ∀ value, motive (.constant value))
    (compare : ∀ left comparator right, motive (.compare left comparator right))
    (isNull : ∀ term negated, motive (.isNull term negated))
    (isIn : ∀ term values negated, motive (.isIn term values negated))
    (between : ∀ term lower upper, motive (.between term lower upper))
    (like : ∀ text pattern, motive (.like text pattern))
    (ilike : ∀ text pattern, motive (.ilike text pattern))
    (arrayContains : ∀ document pointer type value, motive (.arrayContains document pointer type value))
    (arrayContainsAll : ∀ document pointer type values, motive (.arrayContainsAll document pointer type values))
    (arrayContainsAny : ∀ document pointer type values, motive (.arrayContainsAny document pointer type values))
    (hasPath : ∀ document pointer, motive (.hasPath document pointer))
    (pathIsNull : ∀ document pointer negated, motive (.pathIsNull document pointer negated))
    (offPath : ∀ path id, motive (.offPath path id))
    (all : ∀ conditions, (∀ part ∈ conditions, motive part) → motive (.all conditions))
    (any : ∀ conditions, (∀ part ∈ conditions, motive part) → motive (.any conditions))
    (notAll : ∀ conditions, (∀ part ∈ conditions, motive part) → motive (.notAll conditions))
    (equalsCase : ∀ term guard first second, motive guard → motive (.equalsCase term guard first second))
    (subquery : ∀ statement negated, motive (.subquery statement negated))
    (inSubquery : ∀ term statement negated, motive (.inSubquery term statement negated)) :
    ∀ condition, motive condition :=
  @Condition.rec σ motive (fun conditions => ∀ part ∈ conditions, motive part) constant compare isNull
    isIn between like ilike arrayContains arrayContainsAll arrayContainsAny hasPath pathIsNull offPath
    all any notAll equalsCase subquery inSubquery (List.forall_mem_nil _)
    fun _ _ first rest => List.forall_mem_cons.mpr ⟨first, rest⟩

@[simp] theorem references_map (f : σ → τ) (condition : Condition σ) :
    (condition.map f).references = condition.references := by
  induction condition with
  | all conditions ih | any conditions ih | notAll conditions ih =>
    simp only [map, references, mapAll_eq_map, referencesOf_eq_flatMap, List.flatMap_map]
    exact List.flatMap_congr ih
  | equalsCase _ _ _ _ ih => simp [map, references, ih]
  | _ => simp [map, references]

@[simp] theorem nested_map (f : σ → τ) (condition : Condition σ) :
    (condition.map f).nested = condition.nested.map f := by
  induction condition with
  | all conditions ih | any conditions ih | notAll conditions ih =>
    simp only [map, nested, mapAll_eq_map, nestedOf_eq_flatMap, List.flatMap_map, List.map_flatMap]
    exact List.flatMap_congr ih
  | equalsCase _ _ _ _ ih => simp [map, nested, ih]
  | _ => simp [map, nested]

/-- The condition reads only admitted columns and holds only admitted statements. -/
structure Admits (reads : Reference → Prop) (holds : σ → Prop) (condition : Condition σ) : Prop where
  references : ∀ reference ∈ condition.references, reads reference
  nested : ∀ statement ∈ condition.nested, holds statement

theorem admits_map {f : σ → τ} : (condition.map f).Admits reads holds ↔
      condition.Admits reads fun statement => holds (f statement) := by
  constructor
  · intro admitted
    exact ⟨by simpa using admitted.references, by simpa using admitted.nested⟩
  · intro admitted
    exact ⟨by simpa using admitted.references, by simpa using admitted.nested⟩

theorem forall_admits_mapAll {f : σ → τ} {conditions : List (Condition σ)} :
    (∀ condition ∈ mapAll f conditions, condition.Admits reads holds) ↔
      ∀ condition ∈ conditions, condition.Admits reads fun statement => holds (f statement) := by
  simp [mapAll_eq_map, admits_map]

section Admits

variable {reads : Reference → Prop} {holds : σ → Prop}

theorem admits_of_references (references : ∀ reference ∈ condition.references, reads reference)
    (nested : condition.nested = []) : condition.Admits reads holds :=
  ⟨references, by simp [nested]⟩

theorem admits_compare {left right : Term} (leftReads : left.Reads reads)
    (rightReads : right.Reads reads) (comparator : Comparator) :
    (compare left comparator right).Admits reads holds := by
  refine admits_of_references ?_ rfl
  intro reference mem
  exact (List.mem_append.mp mem).elim (leftReads reference) (rightReads reference)

theorem admits_equal {left right : Term} (leftReads : left.Reads reads)
    (rightReads : right.Reads reads) : (equal left right).Admits reads holds :=
  admits_compare leftReads rightReads .equal

theorem admits_isNull {term : Term} (termReads : term.Reads reads) (negated : Bool) :
    (isNull term negated).Admits reads holds :=
  admits_of_references termReads rfl

/-- Kinds are values, so that only the compared term reads columns. -/
theorem admits_kindIs {term : Term} (termReads : term.Reads reads) (kinds : List String) :
    (kindIs term kinds).Admits reads holds := by
  unfold kindIs
  split
  · exact admits_equal termReads (by simp [Term.Reads])
  · refine admits_of_references ?_ rfl
    simpa [references, Term.Reads, List.flatMap_map] using termReads

variable {conditions : List (Condition σ)}

theorem admits_all (each : ∀ condition ∈ conditions, condition.Admits reads holds) :
    (all conditions).Admits reads holds := by
  refine ⟨?_, ?_⟩
  · simpa [references, referencesOf_eq_flatMap] using
      fun reference condition mem => (each condition mem).references reference
  · simpa [nested, nestedOf_eq_flatMap] using fun statement condition mem => (each condition mem).nested statement

theorem each_of_admits_all (admitted : (all conditions).Admits reads holds) :
    ∀ condition ∈ conditions, condition.Admits reads holds := by
  intro condition mem
  refine ⟨fun reference read => admitted.references reference ?_, fun statement held => admitted.nested statement ?_⟩
  · rw [references, referencesOf_eq_flatMap]
    exact List.mem_flatMap.mpr ⟨condition, mem, read⟩
  · rw [nested, nestedOf_eq_flatMap]
    exact List.mem_flatMap.mpr ⟨condition, mem, held⟩

theorem admits_any (each : ∀ condition ∈ conditions, condition.Admits reads holds) :
    (any conditions).Admits reads holds :=
  ⟨(admits_all each).references, (admits_all each).nested⟩

theorem admits_notAll (each : ∀ condition ∈ conditions, condition.Admits reads holds) :
    (notAll conditions).Admits reads holds :=
  ⟨(admits_all each).references, (admits_all each).nested⟩

theorem admits_equalsCase {term first second : Term} {guard : Condition σ}
    (termReads : term.Reads reads) (guardAdmits : guard.Admits reads holds)
    (firstReads : first.Reads reads) (secondReads : second.Reads reads) :
    (equalsCase term guard first second).Admits reads holds := by
  refine ⟨?_, guardAdmits.nested⟩
  intro reference mem
  simp only [references, List.mem_append] at mem
  rcases mem with ((ofTerm | ofGuard) | ofFirst) | ofSecond
  · exact termReads reference ofTerm
  · exact guardAdmits.references reference ofGuard
  · exact firstReads reference ofFirst
  · exact secondReads reference ofSecond

end Admits

end Condition

end GraphSql
