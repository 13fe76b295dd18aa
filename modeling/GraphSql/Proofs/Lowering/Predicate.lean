import GraphSql.Proofs.Lowering.Comparison

namespace GraphSql

open Condition

variable {reads : Reference → Prop} {scope : Scope} {field : Field}

theorem Column.mem_all (column : Column) : column ∈ all := by cases column <;> decide

/-- The scope gives admitted terms for the columns of the field. -/
def Scope.Serves (scope : Scope) (reads : Reference → Prop) (field : Field) : Prop :=
  ∀ column ∈ field.readColumns, Ensures (scope.column field.aliasName column) (Term.Reads reads)

namespace Condition

variable {σ : Type} (form : Form) (term : Term) (values : List Term)

theorem Form.references_fill_subset : (form.fill term values : Condition σ).references ⊆
    term.references ++ values.flatMap Term.references := by
  cases form <;> rcases values with _ | ⟨value, _ | ⟨other, _ | ⟨third, rest⟩⟩⟩ <;>
    simp [fill, references]

@[simp] theorem Form.nested_fill : (form.fill term values : Condition σ).nested = [] := by
  cases form <;> rcases values with _ | ⟨value, _ | ⟨other, _ | ⟨third, rest⟩⟩⟩ <;> rfl

end Condition

theorem simulation_admits {compare : Comparer} (sequential : Sequential compare) (reads : Reference → Prop)
    (holds : Statement → Prop) : FullSimulation compare (fun term _ => term.Reads reads) (fun term _ => term.references = [])
      (fun statement _ => holds statement) (fun condition _ => condition.Admits reads holds) where
  toSequential := sequential
  extract _ _ served := served
  aggregate _ served := served
  arrayLength _ served := served
  orZero served := served
  zero := rfl
  constant _ := admits_of_references (by simp [references]) rfl
  fill form served closed := by
    refine admits_of_references (fun reference mem => ?_) (form.nested_fill _ _)
    rcases List.mem_append.mp (form.references_fill_subset _ _ mem) with ofTerm | ofValues
    · exact served reference ofTerm
    · simp [List.flatMap_eq_nil_iff.mpr (forall_mem_of_forall₂ closed)] at ofValues
  all each := admits_all (forall_mem_of_forall₂ each)
  any each := admits_any (forall_mem_of_forall₂ each)
  notAll admitted := admits_notAll (List.forall_mem_singleton.mpr admitted)
  subquery _ held := ⟨by simp [references], by simpa [nested] using held⟩
  inSubquery _ served held := ⟨served, by simpa [nested] using held⟩

namespace Scope.Serves

variable (serves : scope.Serves reads field)

include serves

theorem whole (found : field.target = .ok .whole) : Ensures (scope.column field.aliasName .id) (Term.Reads reads) :=
  serves .id (by simp [Field.readColumns, found])

theorem compares : field.Compares Secures (fun term _ => term.Reads reads) scope scope :=
  fun column mem => (serves column mem).secures

theorem readTyped : Ensures (field.readTyped scope) (Term.Reads reads) :=
  ((simulation_admits sequential_secures reads fun _ => True).readTyped serves.compares).ensures

end Scope.Serves

theorem Aggregate.lower_ensures {aggregate : Aggregate} (serves : scope.Serves reads aggregate.field) :
    Ensures (aggregate.lower scope) (Term.Reads reads) :=
  ((simulation_admits sequential_secures reads fun _ => True).toSimulation.lower serves.compares rfl).ensures

namespace Predicate

variable {holds : Statement → Prop}

/-- A lowered predicate reads what the scope serves for its fields and holds the statements that its
nested queries have become. -/
theorem lower_ensures (dialect : Dialect) (predicate : Predicate Nested)
    (serves : ∀ field ∈ predicate.fields, scope.Serves reads field)
    (nested : ∀ query ∈ predicate.nested, Ensures query.outcome.result holds) :
    Ensures (lower dialect scope predicate).result (Condition.Admits reads holds) :=
  ((simulation_admits sequential_secures reads holds).lower_same dialect rfl (fun _ closed => closed) predicate
    (fun field mem => (serves field mem).compares)
    fun query mem => (nested query mem).secures).ensures

theorem lowerAll_ensures (dialect : Dialect) (operands : List (Predicate Nested))
    (serves : ∀ field ∈ fieldsOf operands, scope.Serves reads field)
    (nested : ∀ query ∈ nestedOf operands, Ensures query.outcome.result holds) :
    Ensures (lowerAll dialect scope operands).result fun conditions =>
      ∀ condition ∈ conditions, condition.Admits reads holds := by
  have lowered := (simulation_admits sequential_secures reads holds).lowerAll_same dialect rfl (fun _ closed => closed)
    operands (fun field mem => (serves field mem).compares)
    fun query mem => (nested query mem).secures
  exact Ensures.imp lowered fun _ found => found.elim fun _ both => forall_mem_of_forall₂ both.2

end Predicate

end GraphSql
