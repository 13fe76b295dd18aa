import GraphSql.Proofs.Reference
import GraphSql.Statement.Printer

namespace GraphSql

open Condition Fragment Function Statement

variable {σ τ υ : Type}

/-- The slot without its value. -/
def Slot.blank : Slot → Slot
  | .value _ => .value .null
  | .named name transform => .named name transform

namespace Fragment

/-- The fragment without the values of its slots. -/
def blank (fragment : Fragment) : Fragment where
  pieces := fragment.pieces.map fun
    | .text text => .text text
    | .slot slot => .slot slot.blank

@[simp] theorem blank_append (first second : Fragment) : (first ++ second).blank = first.blank ++ second.blank := by
  simp only [blank, pieces_append, List.map_append]
  rfl

@[simp] theorem blank_ofString (text : String) : (ofString text).blank = ofString text := rfl

@[simp] theorem blank_empty : empty.blank = empty := rfl

@[simp] theorem blank_ofIdentifier (name : Identifier) : (ofIdentifier name).blank = ofIdentifier name := rfl

@[simp] theorem blank_ofInt (value : Int) : (ofInt value).blank = ofInt value := rfl

@[simp] theorem blank_ofSlot (slot : Slot) : (ofSlot slot).blank = ofSlot slot.blank := rfl

@[simp] theorem blank_join (separator : String) (fragments : List Fragment) :
    (join separator fragments).blank = join separator (fragments.map blank) := by
  induction fragments with
  | nil => rfl
  | cons first rest ih =>
    cases rest with
    | nil => rfl
    | cons second others => simp [join, ih]

@[simp] theorem blank_parenthesized (fragment : Fragment) :
    fragment.parenthesized.blank = fragment.blank.parenthesized := by
  simp [parenthesized]

theorem textFrom_blank (dialect : Dialect) (index : Nat) (fragment : Fragment) :
    textFrom dialect index fragment.blank.pieces = textFrom dialect index fragment.pieces := by
  obtain ⟨pieces⟩ := fragment
  induction pieces generalizing index with
  | nil => rfl
  | cons piece rest ih =>
    cases piece with
    | text text => exact congrArg (text.toList ++ ·) (ih index)
    | slot slot => exact congrArg (dialect.placeholder index ++ ·) (ih (index + 1))

theorem slots_blank (fragment : Fragment) : fragment.blank.slots = fragment.slots.map Slot.blank := by
  obtain ⟨pieces⟩ := fragment
  induction pieces with
  | nil => rfl
  | cons piece rest ih =>
    cases piece with
    | text text => exact ih
    | slot slot => exact congrArg (slot.blank :: ·) ih

end Fragment

namespace Term

/-- The term without known values. -/
def blank : Term → Term
  | .slot place => .slot place.blank
  | .successor term => .successor (blank term)
  | .orZero term => .orZero (blank term)
  | .aggregate function argument => .aggregate function (blank argument)
  | .extract document pointer extraction => .extract (blank document) pointer extraction
  | .arrayLength document pointer => .arrayLength (blank document) pointer
  | .pathStart id => .pathStart (blank id)
  | .pathExtend path id => .pathExtend (blank path) (blank id)
  | .distance metric embedding vector => .distance metric (blank embedding) (blank vector)
  | .column row name => .column row name
  | .bare name => .bare name
  | .output name => .output name
  | .integer value => .integer value
  | .now => .now

@[simp] theorem print_blank (dialect : Dialect) (term : Term) :
    term.blank.print dialect = (term.print dialect).blank := by
  induction term with
  | column | bare | output | integer | slot => simp [blank, print]
  | now => cases dialect <;> simp [blank, print, Dialect.now]
  | successor _ ih | orZero _ ih | aggregate _ _ ih => simp [blank, print, ih]
  | extract _ _ extraction ih =>
    cases dialect <;> cases extraction <;>
      simp [blank, print, ih, Dialect.extract, Dialect.postgresValue]
  | arrayLength _ _ ih => cases dialect <;> simp [blank, print, ih, Dialect.arrayLength, Dialect.postgresValue]
  | pathStart _ ih => cases dialect <;> simp [blank, print, ih, Dialect.pathStart]
  | pathExtend _ _ path id => cases dialect <;> simp [blank, print, path, id, Dialect.pathExtend]
  | distance metric _ _ embedding vector =>
    cases dialect <;> cases metric <;> simp [blank, print, embedding, vector, Dialect.distance]

end Term

namespace Condition

mutual

/-- The condition without known values, with something in the place of nested statements. -/
def outline (f : σ → τ) : Condition σ → Condition τ
  | .constant value => .constant value
  | .compare left comparator right => .compare left.blank comparator right.blank
  | .isNull term negated => .isNull term.blank negated
  | .isIn term values negated => .isIn term.blank (values.map Term.blank) negated
  | .between term lower upper => .between term.blank lower.blank upper.blank
  | .like text pattern => .like text.blank pattern.blank
  | .ilike text pattern => .ilike text.blank pattern.blank
  | .arrayContains document pointer valueType value => .arrayContains document.blank pointer valueType value.blank
  | .arrayContainsAll document pointer valueType values =>
      .arrayContainsAll document.blank pointer valueType (values.map Term.blank)
  | .arrayContainsAny document pointer valueType values =>
      .arrayContainsAny document.blank pointer valueType (values.map Term.blank)
  | .hasPath document pointer => .hasPath document.blank pointer
  | .pathIsNull document pointer negated => .pathIsNull document.blank pointer negated
  | .offPath path id => .offPath path.blank id.blank
  | .all conditions => .all (outlineAll f conditions)
  | .any conditions => .any (outlineAll f conditions)
  | .notAll conditions => .notAll (outlineAll f conditions)
  | .equalsCase term guard first second => .equalsCase term.blank (outline f guard) first.blank second.blank
  | .subquery statement negated => .subquery (f statement) negated
  | .inSubquery term statement negated => .inSubquery term.blank (f statement) negated

def outlineAll (f : σ → τ) : List (Condition σ) → List (Condition τ)
  | [] => []
  | condition :: rest => outline f condition :: outlineAll f rest

end

theorem outlineAll_eq_map (f : σ → τ) (conditions : List (Condition σ)) :
    outlineAll f conditions = conditions.map (outline f) := by
  induction conditions with
  | nil => rfl
  | cons condition rest ih => simp [outlineAll, ih]

theorem outline_map (f : τ → υ) (g : σ → τ) (condition : Condition σ) :
    (condition.map g).outline f = condition.outline fun statement => f (g statement) := by
  induction condition with
  | all conditions ih | any conditions ih | notAll conditions ih =>
    simp only [map, outline, mapAll_eq_map, outlineAll_eq_map, List.map_map]
    exact congrArg _ (List.map_congr_left ih)
  | equalsCase _ _ _ _ ih => simp [map, outline, ih]
  | _ => simp [map, outline]

theorem printAll_outlineAll {dialect : Dialect} {conditions : List (Condition Fragment)}
    (each : ∀ condition ∈ conditions,
      (condition.outline Fragment.blank).print dialect = (condition.print dialect).blank) :
    printAll dialect (outlineAll Fragment.blank conditions) = (printAll dialect conditions).map Fragment.blank := by
  induction conditions with
  | nil => rfl
  | cons condition rest ih =>
    rw [List.forall_mem_cons] at each
    simp [outlineAll, printAll, each.1, ih each.2]

theorem print_outline (dialect : Dialect) (condition : Condition Fragment) :
    (condition.outline Fragment.blank).print dialect = (condition.print dialect).blank := by
  induction condition with
  | constant value => cases value <;> simp [outline, print]
  | compare | between => simp [outline, print]
  | like | ilike => cases dialect <;> simp [outline, print, Dialect.like, Dialect.ilike]
  | hasPath | offPath =>
    cases dialect <;>
      simp [outline, print, Dialect.hasPath, Dialect.offPath, Dialect.sqliteType, Dialect.postgresValue]
  | pathIsNull _ _ negated =>
    cases dialect <;> cases negated <;>
      simp [outline, print, Dialect.pathIsNull, Dialect.sqliteType, Dialect.postgresValue]
  | isIn _ _ negated => cases negated <;> simp [outline, print, printTerms, comp_def]
  | arrayContains _ _ type | arrayContainsAll _ _ type | arrayContainsAny _ _ type =>
    cases dialect <;> cases type <;>
      simp [outline, print, Dialect.arrayContainsAll, Dialect.arrayContainsAny,
        Dialect.arrayContains, Dialect.postgresTyped, Dialect.postgresValue, comp_def]
  | all conditions ih | any conditions ih | notAll conditions ih =>
    simp [outline, print, printConjuncts, printAll_outlineAll ih]
  | equalsCase _ _ _ _ ih => simp [outline, print, ih]
  | isNull _ negated | subquery _ negated | inSubquery _ _ negated => cases negated <;> simp [outline, print]

end Condition

def OutputColumn.blank : OutputColumn → OutputColumn
  | .plain term => .plain term.blank
  | .named term name => .named term.blank name
  | .quoted term name => .quoted term.blank name
  | .every row => .every row

def SortKey.blank (key : SortKey) : SortKey := { key with term := key.term.blank }

def Join.outline (f : σ → τ) (join : Join σ) : Join τ where
  kind := join.kind
  ordered := join.ordered
  source := join.source
  conditions := join.conditions.map (Condition.outline f)

/-- The SELECT without known values, with something in the place of nested statements. -/
def Select.outline (f : σ → τ) (select : Select σ) : Select τ where
  columns := select.columns.map OutputColumn.blank
  source := select.source
  joins := select.joins.map (Join.outline f)
  conditions := select.conditions.map (Condition.outline f)
  groupBy := select.groupBy.map Term.blank
  having := select.having.map (Condition.outline f)
  orderBy := select.orderBy.map SortKey.blank
  bounds := select.bounds

def RowSet.outline (f : σ → τ) (rowSet : RowSet σ) : RowSet τ where
  name := rowSet.name
  materialized := rowSet.materialized
  members := rowSet.members.map (Select.outline f)

/-- The level without known values, with something in the place of nested statements. -/
def Level.outline (f : σ → τ) (level : Level σ) : Level τ where
  isRecursive := level.isRecursive
  rowSets := level.rowSets.map (RowSet.outline f)
  select := level.select.outline f

section Map

variable (f : τ → υ) (g : σ → τ)

theorem Join.outline_map (join : Join σ) : (join.map g).outline f = join.outline fun statement => f (g statement) := by
  simp [Join.outline, Join.map, mapAll_eq_map, Condition.outline_map]

theorem Select.outline_map (select : Select σ) :
    (select.map g).outline f = select.outline fun statement => f (g statement) := by
  simp [Select.outline, Select.map, mapAll_eq_map, Condition.outline_map, Join.outline_map, comp_def]

theorem RowSet.outline_map (rowSet : RowSet σ) :
    (rowSet.map g).outline f = rowSet.outline fun statement => f (g statement) := by
  simp [RowSet.outline, RowSet.map, Select.outline_map]

theorem Level.outline_map (level : Level σ) :
    (level.map g).outline f = level.outline fun statement => f (g statement) := by
  simp [Level.outline, Level.map, RowSet.outline_map, Select.outline_map]

end Map

section Print

variable (dialect : Dialect) (schema : Schema)

@[simp] theorem OutputColumn.print_blank (column : OutputColumn) :
    column.blank.print dialect = (column.print dialect).blank := by
  cases column <;> simp [OutputColumn.blank, OutputColumn.print]

@[simp] theorem SortKey.print_blank (key : SortKey) : key.blank.print dialect = (key.print dialect).blank := by
  rcases key with ⟨_, _ | _, _ | _ | _⟩ <;> simp [SortKey.blank, SortKey.print]

@[simp] theorem Source.blank_print (source : Source) : (source.print schema).blank = source.print schema := by
  rcases source with _ | ⟨_, _ | _⟩ | _ <;> simp [Source.print]

@[simp] theorem blank_printClause (gap keyword separator : String) (entries : List Fragment) :
    (printClause gap keyword separator entries).blank = printClause gap keyword separator (entries.map blank) := by
  cases entries <;> simp [printClause]

@[simp] theorem blank_printBounds (gap : String) (bounds : Option Bounds) :
    (printBounds dialect gap bounds).blank = printBounds dialect gap bounds := by
  cases bounds <;> simp [printBounds, Bounds.print]

theorem Join.print_outline (gap : String) (join : Join Fragment) :
    (join.outline blank).print dialect schema gap = (join.print dialect schema gap).blank := by
  simp [Join.outline, Join.print, Join.keyword, printConjuncts,
    ← outlineAll_eq_map, printAll_outlineAll fun _ _ => Condition.print_outline ..]

theorem Select.print_outline (gap : String) (select : Select Fragment) :
    (select.outline blank).print dialect schema gap = (select.print dialect schema gap).blank := by
  have having : (select.having.map (Condition.outline blank)).toList.map (Condition.print dialect) =
        (select.having.toList.map (Condition.print dialect)).map blank := by
    cases select.having <;> simp [Condition.print_outline]
  simp [Select.outline, Select.print, having, printOrderBy, Join.print_outline, ← outlineAll_eq_map, comp_def,
    printAll_outlineAll fun _ _ => Condition.print_outline ..]

theorem RowSet.print_outline (rowSet : RowSet Fragment) :
    (rowSet.outline blank).print dialect schema = (rowSet.print dialect schema).blank := by
  simp only [RowSet.outline, RowSet.print, List.map_map, comp_def,
    Select.print_outline, blank_append, blank_ofString, blank_join]
  rfl

theorem Level.print_outline (level : Level Fragment) :
    (level.outline blank).print dialect schema = (level.print dialect schema).blank := by
  have rowSets : printRowSets dialect schema level.isRecursive (level.rowSets.map (RowSet.outline blank)) =
        (printRowSets dialect schema level.isRecursive level.rowSets).blank := by
    cases level.rowSets with
    | nil => rfl
    | cons first rest => simp [printRowSets, RowSet.print_outline, comp_def]
  simp [Level.print, Level.outline, rowSets, Select.print_outline]

/-- The statement as it is printed, without values. -/
def Statement.outline (statement : Statement) : Fragment := (statement.print dialect schema).blank

theorem Statement.outline_mk_eq {first second : Level Statement} (same : first.outline (outline dialect schema) =
      second.outline (outline dialect schema)) :
    (mk first).outline dialect schema = (mk second).outline dialect schema := by
  have outlined : ∀ level : Level Statement, (mk level).outline dialect schema =
      (level.outline (outline dialect schema)).print dialect schema := by
    intro level
    rw [outline, print, fold_mk, ← Level.print_outline, Level.outline_map]
    rfl
  rw [outlined, outlined, same]

end Print

end GraphSql
