import GraphSql.Proofs.Lowering.Output
import GraphSql.Proofs.Semantics.Correspondence

namespace GraphSql

open Condition List Predicate

variable {ρ : Row → Row} {reads : Reference → Prop} {scope other : Scope} {field : Field}

/-- The term is another one, read through other rows, and this one reads only admitted columns. -/
def Term.Rescoped (ρ : Row → Row) (reads : Reference → Prop) (term other : Term) : Prop :=
  term = other.rename ρ ∧ other.Reads reads

def Condition.Rescoped (ρ : Row → Row) (reads : Reference → Prop) (condition other : Condition Statement) : Prop :=
  condition = other.rename ρ ∧ ∀ reference ∈ other.references, reads reference

theorem Term.rename_of_closed (ρ : Row → Row) {terms others : List Term}
    (each : List.Forall₂ (fun term other => term = other ∧ other.references = []) terms others) :
    terms = others.map (Term.rename ρ) ∧ others.flatMap references = [] := by
  induction each with
  | nil => simp
  | cons head tail ih =>
    obtain ⟨rfl, closed⟩ := head
    refine ⟨?_, by simp [closed, ih.2]⟩
    rw [map_cons, ← ih.1, rename_eq_self (by simp [closed])]

theorem Condition.Form.rename_fill {σ : Type} (ρ : Row → Row) (form : Form) (term : Term)
    (values : List Term) : (form.fill term values : Condition σ).rename ρ =
      form.fill (term.rename ρ) (values.map (Term.rename ρ)) := by
  cases form <;> rcases values with _ | ⟨value, _ | ⟨other, _ | ⟨third, rest⟩⟩⟩ <;> rfl

/-- The conditions in a list are others, read through other rows. -/
def Predicate.AllRescoped (ρ : Row → Row) (reads : Reference → Prop) (conditions others : Conditions) : Prop :=
  conditions = renameAll ρ others ∧ ∀ reference ∈ referencesOf others, reads reference

theorem Predicate.allRescoped_of_forall₂ {conditions others : Conditions}
    (each : List.Forall₂ (Condition.Rescoped ρ reads) conditions others) :
    AllRescoped ρ reads conditions others := by
  induction each with
  | nil => exact ⟨rfl, by simp [referencesOf]⟩
  | cons head tail ih =>
    refine ⟨by rw [head.1, ih.1]; rfl, ?_⟩
    exact forall_mem_append.mpr ⟨head.2, ih.2⟩

theorem simulation_rescoped (ρ : Row → Row) (reads : Reference → Prop) : FullSimulation Follows (Term.Rescoped ρ reads)
      (fun term other => term = other ∧ other.references = []) Eq (Condition.Rescoped ρ reads) where
  toSequential := sequential_follows
  extract _ _ same := ⟨by rw [same.1]; rfl, same.2⟩
  aggregate _ same := ⟨by rw [same.1]; rfl, same.2⟩
  arrayLength _ same := ⟨by rw [same.1]; rfl, same.2⟩
  orZero same := ⟨by rw [same.1]; rfl, same.2⟩
  zero := ⟨rfl, rfl⟩
  constant _ := ⟨rfl, by simp [references]⟩
  fill form same each := by
    obtain ⟨renamed, closed⟩ := Term.rename_of_closed ρ each
    refine ⟨by rw [same.1, renamed, form.rename_fill], fun reference mem => ?_⟩
    have ofTerm := form.references_fill_subset _ _ mem
    rw [closed, append_nil] at ofTerm
    exact same.2 reference ofTerm
  all each := ⟨by rw [(allRescoped_of_forall₂ each).1]; rfl, (allRescoped_of_forall₂ each).2⟩
  any each := ⟨by rw [(allRescoped_of_forall₂ each).1]; rfl, (allRescoped_of_forall₂ each).2⟩
  notAll same := ⟨by rw [same.1]; rfl, by simpa [references, referencesOf] using same.2⟩
  subquery _ same := ⟨by rw [same]; rfl, by simp [references]⟩
  inSubquery _ same inner := ⟨by rw [same.1, inner]; rfl, same.2⟩

/-- Wherever a scope has the columns of the field, another one has them too, in other rows. -/
def Field.Rescoped (ρ : Row → Row) (reads : Reference → Prop) (scope other : Scope) (field : Field) : Prop :=
  ∀ column ∈ field.readColumns, Follows (Term.Rescoped ρ reads) (scope.column field.aliasName column)
      (other.column field.aliasName column)

namespace Field.Rescoped

/-- What follows for each target of a field follows for the field. -/
theorem resolve {α β : Type} {related : α → β → Prop} {next : Target → Attempt α} {after : Target → Attempt β}
    (each : ∀ target, field.target = .ok target → Follows related (next target) (after target)) :
    Follows related (field.resolve >>= next) (field.resolve >>= after) :=
  field.resolve_ensures.follows_bind each

variable (rescoped : field.Rescoped ρ reads scope other)

include rescoped

theorem whole (found : field.target = .ok .whole) :
    Follows (Term.Rescoped ρ reads) (scope.column field.aliasName .id) (other.column field.aliasName .id) :=
  rescoped .id (by simp [readColumns, found])

theorem readTyped : Follows (Term.Rescoped ρ reads) (field.readTyped scope) (field.readTyped other) :=
  (simulation_rescoped ρ reads).readTyped rescoped

end Field.Rescoped

theorem Aggregate.lower_rescoped {aggregate : Aggregate} (rescoped : aggregate.field.Rescoped ρ reads scope other)
    (aggregates : scope.aggregates = other.aggregates) :
    Follows (Term.Rescoped ρ reads) (aggregate.lower scope) (aggregate.lower other) :=
  (simulation_rescoped ρ reads).toSimulation.lower rescoped aggregates

namespace Predicate

variable (dialect : Dialect) (aggregates : scope.aggregates = other.aggregates)
include aggregates

theorem lower_rescoped (predicate : Predicate Nested)
    (rescoped : ∀ field ∈ predicate.fields, field.Rescoped ρ reads scope other) :
    Follows (Condition.Rescoped ρ reads) (lower dialect scope predicate).result
      (lower dialect other predicate).result :=
  (simulation_rescoped ρ reads).lower_same dialect aggregates (fun _ closed => ⟨rfl, closed⟩)
    predicate rescoped fun _ _ => follows_self _

theorem lowerAll_rescoped (operands : List (Predicate Nested))
    (rescoped : ∀ field ∈ fieldsOf operands, field.Rescoped ρ reads scope other) :
    Follows (AllRescoped ρ reads) (lowerAll dialect scope operands).result (lowerAll dialect other operands).result :=
  ((simulation_rescoped ρ reads).lowerAll_same dialect aggregates (fun _ closed => ⟨rfl, closed⟩)
    operands rescoped fun _ _ => follows_self _).mono fun _ _ => allRescoped_of_forall₂

end Predicate

namespace Output

variable {output another : Output}

/-- The columns of a SELECT list are others, read through other rows. -/
def ColumnsRescoped (ρ : Row → Row) (reads : Reference → Prop) (columns others : List OutputColumn) : Prop :=
  columns = others.map (OutputColumn.rename ρ) ∧ ∀ column ∈ others, column.Reads reads

/-- The columns of an alias are others, read through other rows. -/
def EntriesRescoped (ρ : Row → Row) (reads : Reference → Prop) (entries others : List (Column × Term)) : Prop :=
  entries = others.map (Prod.map id (Term.rename ρ)) ∧ ∀ entry ∈ others, entry.2.Reads reads

/-- The terms of a clause are others, read through other rows. -/
def TermsRescoped (ρ : Row → Row) (reads : Reference → Prop) (terms others : List Term) : Prop :=
  terms = others.map (Term.rename ρ) ∧ ∀ term ∈ others, term.Reads reads

/-- What is the image of another list entry by entry is so altogether. -/
theorem follows_flatten {α β : Type} {f : β → β} {holds : β → Prop} {entries : List α}
    {one other : α → Attempt (List β)}
    (each : ∀ entry ∈ entries, Follows (fun values sources =>
      values = sources.map f ∧ ∀ source ∈ sources, holds source) (one entry) (other entry)) :
    Follows (fun values sources => values = sources.map f ∧ ∀ source ∈ sources, holds source)
      (entries.mapM one >>= fun lists => pure lists.flatten)
      (entries.mapM other >>= fun lists => pure lists.flatten) := by
  apply (sequential_follows.mapM each).bind
  intro lists sources same
  refine (follows_pure _ _).mpr ?_
  induction same with
  | nil => simp
  | cons first rest ih =>
    rw [flatten_cons, flatten_cons, map_append, ← first.1, ← ih.1]
    exact ⟨rfl, forall_mem_append.mpr ⟨first.2, ih.2⟩⟩

theorem ColumnsRescoped.single {term source : Term} (same : term.Rescoped ρ reads source)
    (name : String) : ColumnsRescoped ρ reads [.quoted term name] [.quoted source name] :=
  ⟨by rw [same.1]; rfl, by simpa [OutputColumn.Reads] using same.2⟩

/-- What is read of a field as a whole follows as well. -/
def WholeRescoped (ρ : Row → Row) (reads : Reference → Prop) (output another : Output) (field : Field) : Prop :=
  field.target = .ok .whole → Follows (EntriesRescoped ρ reads) (output.relations.allColumns field.aliasName)
      (another.relations.allColumns field.aliasName)

section Columns

variable (nearest : output.nearest = none) (otherNearest : another.nearest = none)

include nearest otherNearest

theorem fieldColumns_rescoped (rescoped : field.Rescoped ρ reads output.scope another.scope)
    (whole : WholeRescoped ρ reads output another field) (name : String) :
    Follows (ColumnsRescoped ρ reads) (output.fieldColumns name field) (another.fieldColumns name field) := by
  have single : Follows (ColumnsRescoped ρ reads)
      (do return [OutputColumn.quoted (← field.readTyped output.scope) name])
      (do return [OutputColumn.quoted (← field.readTyped another.scope) name]) := by
    apply rescoped.readTyped.bind
    intro term source same
    exact (follows_pure _ _).mpr (.single same name)
  unfold fieldColumns
  refine Field.Rescoped.resolve fun target found => ?_
  cases target with
  | whole =>
    apply (whole found).bind
    intro entries others same
    simp only [distanceOf, nearest, otherNearest]
    refine (follows_pure _ _).mpr ⟨?_, ?_⟩
    · rw [same.1]
      simp [OutputColumn.rename, Function.comp_def]
    · rw [map_nil, append_nil]
      exact forall_mem_map.mpr same.2
  | column _ | property _ => exact single

theorem projectionsFrom_rescoped (uncomputed : ∀ index, output.computed index = none)
    (otherUncomputed : ∀ index, another.computed index = none)
    {projections : List Projection}
    (rescoped : ∀ projection ∈ projections, projection.source.fieldOf.Rescoped ρ reads output.scope another.scope)
    (whole : ∀ projection ∈ projections, ∀ target, projection.source = .field target →
      WholeRescoped ρ reads output another target) (index : Nat) :
    Follows (ColumnsRescoped ρ reads) (output.projectionsFrom index projections)
      (another.projectionsFrom index projections) := by
  rw [projectionsFrom_eq, projectionsFrom_eq]
  refine follows_flatten fun entry mem => ?_
  have mem := fst_mem_of_mem_zipIdx mem
  have ofEntry := rescoped entry.1 mem
  unfold projectionColumns
  rw [uncomputed, otherUncomputed]
  cases source : entry.1.source with
  | field target =>
    rw [source] at ofEntry
    exact fieldColumns_rescoped nearest otherNearest ofEntry (whole entry.1 mem target source) entry.1.name
  | aggregate expression =>
    rw [source] at ofEntry
    have lowered : Follows (Term.Rescoped ρ reads) (expression.lower output.aggregateScope)
        (expression.lower another.aggregateScope) := Aggregate.lower_rescoped ofEntry rfl
    apply lowered.bind
    intro term source same
    exact (follows_pure _ _).mpr (ColumnsRescoped.single same entry.1.name)

theorem selectedColumns_rescoped {selected : List SelectedField}
    (rescoped : ∀ chosen ∈ selected, chosen.field.Rescoped ρ reads output.scope another.scope)
    (whole : ∀ chosen ∈ selected, WholeRescoped ρ reads output another chosen.field) :
    Follows (ColumnsRescoped ρ reads) (output.selectedColumns selected) (another.selectedColumns selected) := by
  rw [selectedColumns_eq, selectedColumns_eq]
  exact follows_flatten fun chosen mem => fieldColumns_rescoped nearest otherNearest
    (rescoped chosen mem) (whole chosen mem) chosen.name

end Columns

theorem groupBy_rescoped {grouping : List Field}
    (rescoped : ∀ field ∈ grouping, field.Rescoped ρ reads output.scope another.scope)
    (whole : ∀ field ∈ grouping, WholeRescoped ρ reads output another field) :
    Follows (TermsRescoped ρ reads) (output.groupBy grouping) (another.groupBy grouping) := by
  rw [groupBy_eq, groupBy_eq]
  refine follows_flatten fun field mem => ?_
  have single : Follows (TermsRescoped ρ reads) (do return [← field.readTyped output.scope])
      (do return [← field.readTyped another.scope]) := by
    apply (rescoped field mem).readTyped.bind
    intro term source same
    exact (follows_pure _ _).mpr ⟨by rw [same.1]; rfl, by simpa using same.2⟩
  unfold groupKeys
  refine Field.Rescoped.resolve fun target found => ?_
  cases target with
  | whole =>
    apply (whole field mem found).bind
    intro entries others same
    refine (follows_pure _ _).mpr ⟨?_, forall_mem_map.mpr same.2⟩
    rw [same.1]
    simp
  | column _ | property _ => exact single

theorem having_rescoped (dialect : Dialect) {having : Option (Predicate Nested)}
    (rescoped : ∀ predicate ∈ having, ∀ field ∈ predicate.fields, field.Rescoped ρ reads output.scope another.scope) :
    Follows (fun condition source => condition = source.map (rename ρ) ∧
        ∀ lowered ∈ source, ∀ reference ∈ lowered.references, reads reference)
      (output.having dialect having).result (another.having dialect having).result := by
  cases having with
  | none => exact (follows_ok _ _).mpr ⟨rfl, by simp⟩
  | some predicate =>
    simp only [Output.having, Traced.result_bind, Traced.result_pure]
    have sameScope : output.aggregateScope.aggregates = another.aggregateScope.aggregates := rfl
    have lowered : Follows (Condition.Rescoped ρ reads) (predicate.lower dialect output.aggregateScope).result
        (predicate.lower dialect another.aggregateScope).result :=
      predicate.lower_rescoped dialect sameScope (rescoped predicate rfl)
    apply lowered.bind
    intro condition source same
    exact (follows_ok _ _).mpr ⟨by rw [same.1]; rfl, by simpa using same.2⟩

/-- A key is another one, read through other rows. -/
structure KeyRescoped (ρ : Row → Row) (reads : Reference → Prop) (key source : SortKey) : Prop where
  term : key.term.Rescoped ρ reads source.term
  direction : key.direction = source.direction
  nulls : key.nulls = source.nulls

theorem sortKeys_rescoped {orders : List Order}
    (rescoped : ∀ order ∈ orders, order.field.Rescoped ρ reads output.scope another.scope) :
    Follows (List.Forall₂ (KeyRescoped ρ reads)) (output.sortKeys orders) (another.sortKeys orders) := by
  rw [sortKeys_eq, sortKeys_eq]
  refine sequential_follows.mapM fun order mem => ?_
  have ofField := rescoped order mem
  have typed : Follows (KeyRescoped ρ reads)
      (do let term ← order.field.readTyped output.scope
          return (⟨term, order.direction, order.nulls⟩ : SortKey))
      (do let term ← order.field.readTyped another.scope
          return (⟨term, order.direction, order.nulls⟩ : SortKey)) := by
    apply ofField.readTyped.bind
    intro term source same
    exact (follows_pure _ _).mpr ⟨same, rfl, rfl⟩
  unfold sortKey
  refine Field.Rescoped.resolve fun target found => ?_
  cases target with
  | whole =>
    apply (ofField.whole found).bind
    intro term source same
    exact (follows_pure _ _).mpr ⟨same, rfl, rfl⟩
  | column _ | property _ =>
    cases order.field.declaredType with
    | none => exact typed
    | some valueType => exact follows_bind_same fun _ => typed

end Output

end GraphSql
