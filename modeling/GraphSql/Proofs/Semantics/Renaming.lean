import GraphSql.Proofs.Semantics.Expression

namespace GraphSql

open Condition List Term

variable {ν σ τ : Type}

def Reference.rename (rename : Row → Row) : Reference → Reference
  | .column row name => .column (rename row) name
  | .bare name => .bare name
  | .output name => .output name

/-- Reads the columns of a term through other rows. -/
def Term.rename (rename : Row → Row) : Term → Term
  | .column row name => .column (rename row) name
  | .bare name => .bare name
  | .output name => .output name
  | .integer value => .integer value
  | .slot place => .slot place
  | .now => .now
  | .successor term => .successor (Term.rename rename term)
  | .orZero term => .orZero (Term.rename rename term)
  | .aggregate function argument => .aggregate function (Term.rename rename argument)
  | .extract document pointer extraction => .extract (Term.rename rename document) pointer extraction
  | .arrayLength document pointer => .arrayLength (Term.rename rename document) pointer
  | .pathStart id => .pathStart (Term.rename rename id)
  | .pathExtend path id => .pathExtend (Term.rename rename path) (Term.rename rename id)
  | .distance metric embedding vector => .distance metric (Term.rename rename embedding) (Term.rename rename vector)

theorem Term.rename_eq_self {ρ : Row → Row} {term : Term}
    (fixed : ∀ reference ∈ term.references, reference.rename ρ = reference) :
    term.rename ρ = term := by
  induction term with
  | column row name =>
    have same : Reference.column (ρ row) name = .column row name := fixed _ mem_cons_self
    rw [rename, (Reference.column.inj same).1]
  | bare | output | integer | slot | now => rfl
  | pathExtend first second ofFirst ofSecond | distance metric first second ofFirst ofSecond =>
    have both := forall_mem_append.mp fixed
    simp [rename, ofFirst both.1, ofSecond both.2]
  | successor term ih | orZero term ih
  | aggregate function term ih | extract term pointer extraction ih
  | arrayLength term pointer ih | pathStart term ih => simp [rename, ih fixed]

theorem Reference.rename_id (reference : Reference) : reference.rename id = reference := by cases reference <;> rfl

theorem Term.rename_id (term : Term) : term.rename id = term := rename_eq_self fun reference _ => reference.rename_id

theorem map_eq_self {entries : List τ} {f : τ → τ} (each : ∀ entry ∈ entries, f entry = entry) :
    entries.map f = entries :=
  (map_congr_left each).trans (map_id' entries)

theorem Term.map_rename_eq_self {ρ : Row → Row} {terms : List Term}
    (fixed : ∀ reference ∈ terms.flatMap references, reference.rename ρ = reference) :
    terms.map (rename ρ) = terms := by
  rw [forall_mem_flatMap] at fixed
  exact map_eq_self fun term mem => rename_eq_self (fixed term mem)

namespace Condition

mutual

/-- Reads the columns of a condition through other rows. -/
def rename (ρ : Row → Row) : Condition σ → Condition σ
  | .constant value => .constant value
  | .compare left comparator right => .compare (left.rename ρ) comparator (right.rename ρ)
  | .isNull term negated => .isNull (term.rename ρ) negated
  | .isIn term values negated => .isIn (term.rename ρ) (values.map (Term.rename ρ)) negated
  | .between term lower upper => .between (term.rename ρ) (lower.rename ρ) (upper.rename ρ)
  | .like text pattern => .like (text.rename ρ) (pattern.rename ρ)
  | .ilike text pattern => .ilike (text.rename ρ) (pattern.rename ρ)
  | .arrayContains document pointer valueType value =>
      .arrayContains (document.rename ρ) pointer valueType (value.rename ρ)
  | .arrayContainsAll document pointer valueType values =>
      .arrayContainsAll (document.rename ρ) pointer valueType (values.map (Term.rename ρ))
  | .arrayContainsAny document pointer valueType values =>
      .arrayContainsAny (document.rename ρ) pointer valueType (values.map (Term.rename ρ))
  | .hasPath document pointer => .hasPath (document.rename ρ) pointer
  | .pathIsNull document pointer negated => .pathIsNull (document.rename ρ) pointer negated
  | .offPath path id => .offPath (path.rename ρ) (id.rename ρ)
  | .all conditions => .all (renameAll ρ conditions)
  | .any conditions => .any (renameAll ρ conditions)
  | .notAll conditions => .notAll (renameAll ρ conditions)
  | .equalsCase term guard first second =>
      .equalsCase (term.rename ρ) (rename ρ guard) (first.rename ρ) (second.rename ρ)
  | .subquery statement negated => .subquery statement negated
  | .inSubquery term statement negated => .inSubquery (term.rename ρ) statement negated

def renameAll (ρ : Row → Row) : List (Condition σ) → List (Condition σ)
  | [] => []
  | condition :: rest => rename ρ condition :: renameAll ρ rest

end

theorem renameAll_eq_map (ρ : Row → Row) (conditions : List (Condition σ)) :
    renameAll ρ conditions = conditions.map (rename ρ) := by
  induction conditions with
  | nil => rfl
  | cons condition rest ih => simp [renameAll, ih]

section Fixed

variable {ρ : Row → Row}

theorem rename_eq_self (condition : Condition σ)
    (fixed : ∀ reference ∈ condition.references, reference.rename ρ = reference) :
    condition.rename ρ = condition := by
  induction condition with
  | constant | subquery => simp [rename]
  | isNull | hasPath | pathIsNull | inSubquery => simp [rename, Term.rename_eq_self fixed]
  | compare | like | ilike | arrayContains | offPath =>
    have both := forall_mem_append.mp fixed
    simp [rename, Term.rename_eq_self both.1, Term.rename_eq_self both.2]
  | isIn | arrayContainsAll | arrayContainsAny =>
    have both := forall_mem_append.mp fixed
    simp [rename, Term.rename_eq_self both.1, Term.map_rename_eq_self both.2]
  | between =>
    have both := forall_mem_append.mp fixed
    have start := forall_mem_append.mp both.1
    simp [rename, Term.rename_eq_self start.1, Term.rename_eq_self start.2, Term.rename_eq_self both.2]
  | all conditions ih | any conditions ih | notAll conditions ih =>
    rw [references, referencesOf_eq_flatMap, forall_mem_flatMap] at fixed
    rw [rename, renameAll_eq_map]
    exact congrArg _ (map_eq_self fun part mem => ih part mem (fixed part mem))
  | equalsCase _ _ _ _ ih =>
    have both := forall_mem_append.mp fixed
    have before := forall_mem_append.mp both.1
    have start := forall_mem_append.mp before.1
    simp [rename, Term.rename_eq_self start.1, ih start.2, Term.rename_eq_self before.2, Term.rename_eq_self both.2]

end Fixed

theorem renameAll_id (conditions : List (Condition σ)) : renameAll id conditions = conditions := by
  rw [renameAll_eq_map]
  exact map_eq_self fun condition _ => condition.rename_eq_self fun reference _ => reference.rename_id

end Condition

/-- The references read one value each from two rows, and from the members of two groups in turn. -/
structure ReadAlike (db : Engine ν) (ρ : Row → Row) (members : Multiset τ)
    (first second : τ → Frame ν) (frame other : Frame ν) (references : List Reference) : Prop where
  row : ∀ reference ∈ references, db.read frame reference = db.read other (reference.rename ρ)
  group : ∀ member ∈ members, ∀ reference ∈ references,
    db.read (first member) reference = db.read (second member) (reference.rename ρ)

variable {db : Engine ν} {ρ : Row → Row} {members : Multiset τ} {first second : τ → Frame ν}
variable {frame other : Frame ν}

theorem ReadAlike.mono {references wider : List Reference} (included : references ⊆ wider)
    (alike : ReadAlike db ρ members first second frame other wider) :
    ReadAlike db ρ members first second frame other references :=
  ⟨fun reference mem => alike.row reference (included mem),
    fun member inGroup reference mem => alike.group member inGroup reference (included mem)⟩

variable [DecidableEq ν]

theorem Term.eval_rename (term : Term) (alike : ReadAlike db ρ members first second frame other term.references) :
    term.eval db (members.map first) frame = (term.rename ρ).eval db (members.map second) other := by
  induction term generalizing members frame other with
  | column row name => exact alike.row _ (by simp [references])
  | bare name => exact alike.row _ (by simp [references])
  | output name => rfl
  | integer value => rfl
  | slot place => rfl
  | now => rfl
  | aggregate function argument ih =>
    simp only [eval, rename, Multiset.map_map, Function.comp_apply]
    congr 1
    refine Multiset.map_congr rfl fun mem inGroup => ?_
    -- Inside of an aggregate there is no group, so that only the member itself is read.
    have alone : ReadAlike db ρ (0 : Multiset τ) first second (first mem) (second mem)
        argument.references := ⟨alike.group mem inGroup, by simp⟩
    exact ih alone
  | successor term ih | orZero term ih
  | extract term pointer extraction ih
  | arrayLength term pointer ih | pathStart term ih => simp [eval, rename, ih alike]
  | pathExtend left right ofLeft ofRight | distance metric left right ofLeft ofRight =>
    simp [eval, rename, ofLeft (alike.mono (subset_append_left _ _)), ofRight (alike.mono (subset_append_right _ _))]

theorem Term.map_eval_rename {terms : List Term}
    (alike : ReadAlike db ρ members first second frame other (terms.flatMap references)) :
    terms.map (eval db (members.map first) frame) =
      (terms.map (rename ρ)).map (eval db (members.map second) other) := by
  rw [map_map]
  refine map_congr_left fun term mem => term.eval_rename (alike.mono ?_)
  exact fun reference read => mem_flatMap.mpr ⟨term, mem, read⟩

namespace Condition

theorem truth_rename (world : Context ν σ) (condition : Condition σ)
    (alike : ReadAlike world.db ρ members first second frame other condition.references) :
    condition.truth world (members.map first) frame =
      (condition.rename ρ).truth world (members.map second) other := by
  induction condition with
  | constant | subquery => simp [truth, rename]
  | isNull term | hasPath term | pathIsNull term | inSubquery term => simp [truth, rename, term.eval_rename alike]
  | compare left _ right | like left right | ilike left right | arrayContains left _ _ right
  | offPath left right =>
    simp [truth, rename, left.eval_rename (alike.mono (subset_append_left _ _)),
      right.eval_rename (alike.mono (subset_append_right _ _))]
  | isIn term | arrayContainsAll term | arrayContainsAny term =>
    simp [truth, rename, term.eval_rename (alike.mono (subset_append_left _ _)),
      Term.map_eval_rename (alike.mono (subset_append_right _ _))]
  | between term lower upper =>
    have before := alike.mono (subset_append_left _ _)
    simp [truth, rename, term.eval_rename (before.mono (subset_append_left _ _)),
      lower.eval_rename (before.mono (subset_append_right _ _)),
      upper.eval_rename (alike.mono (subset_append_right _ _))]
  | all conditions ih | any conditions ih | notAll conditions ih =>
    have same := map_congr_left fun part (mem : part ∈ conditions) => ih part mem (alike.mono fun reference read => by
        rw [references, referencesOf_eq_flatMap]
        exact mem_flatMap.mpr ⟨part, mem, read⟩)
    simp only [truth, rename, renameAll_eq_map, truths_eq_map, map_map, same, Function.comp_def]
  | equalsCase term guard left right ih =>
    have before := alike.mono (subset_append_left _ _)
    have start := before.mono (subset_append_left _ _)
    simp [truth, rename, term.eval_rename (start.mono (subset_append_left _ _)),
      ih (start.mono (subset_append_right _ _)),
      left.eval_rename (before.mono (subset_append_right _ _)),
      right.eval_rename (alike.mono (subset_append_right _ _))]

end Condition

variable {world : Context ν σ} {conditions : List (Condition σ)}

theorem Context.holds_rename (same : ∀ condition ∈ conditions, ∀ reference ∈ condition.references,
      world.db.read frame reference = world.db.read other (reference.rename ρ)) :
    world.Holds frame conditions ↔ world.Holds other (conditions.map (rename ρ)) := by
  rw [Holds, Holds, forall_mem_map]
  refine forall₂_congr fun condition mem => ?_
  have alike : ReadAlike world.db ρ (0 : Multiset (Frame ν)) id id frame other
      condition.references := ⟨same condition mem, by simp⟩
  have equal := condition.truth_rename world alike
  rw [Multiset.map_zero] at equal
  rw [equal]

theorem Context.holds_congr (same : ∀ condition ∈ conditions, ∀ reference ∈ condition.references,
      world.db.read frame reference = world.db.read other reference) :
    world.Holds frame conditions ↔ world.Holds other conditions := by
  have renamed : world.Holds frame conditions ↔ world.Holds other (conditions.map (rename id)) := by
    refine Context.holds_rename fun condition mem reference read => ?_
    rw [reference.rename_id]
    exact same condition mem reference read
  rwa [← renameAll_eq_map, renameAll_id] at renamed

end GraphSql
