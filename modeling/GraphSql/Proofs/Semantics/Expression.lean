import GraphSql.Proofs.Reference
import Mathlib.Data.Multiset.Bind
import Mathlib.Data.Multiset.Dedup

namespace GraphSql

variable {ν : Type}

/-- The value of a condition. A comparison with null is neither true nor false. -/
inductive Truth where
  | yes
  | no
  | unknown
  deriving DecidableEq, Repr

namespace Truth

def ofBool (value : Bool) : Truth := if value then .yes else .no

def not : Truth → Truth
  | .yes => .no
  | .no => .yes
  | .unknown => .unknown

/-- One false value decides, and an unknown one leaves open what the true ones say. -/
def all (values : Multiset Truth) : Truth := if .no ∈ values then .no else if .unknown ∈ values then .unknown else .yes

/-- One true value decides, and an unknown one leaves open what the false ones say. -/
def any (values : Multiset Truth) : Truth := if .yes ∈ values then .yes else if .unknown ∈ values then .unknown else .no

/-- The value itself, or its negation. -/
def negateIf (negated : Bool) (value : Truth) : Truth := if negated then value.not else value

@[simp] theorem ofBool_eq_yes {value : Bool} : ofBool value = .yes ↔ value = true := by cases value <;> decide

variable {values : Multiset Truth}

@[simp] theorem any_eq_yes : any values = .yes ↔ .yes ∈ values := by
  unfold any
  split
  · next decided => simp [decided]
  · next undecided => split <;> simp [undecided]

@[simp] theorem all_eq_yes : all values = .yes ↔ ∀ value ∈ values, value = .yes := by
  unfold all
  split
  · next decided =>
    simp only [reduceCtorEq, false_iff, not_forall]
    exact ⟨.no, decided, by decide⟩
  · next undecided =>
    split
    · next open' =>
      simp only [reduceCtorEq, false_iff, not_forall]
      exact ⟨.unknown, open', by decide⟩
    · next closed =>
      simp only [true_iff]
      intro value mem
      cases value with
      | yes => rfl
      | no => exact absurd mem undecided
      | unknown => exact absurd mem closed

theorem not_all_eq_yes (decided : .unknown ∉ values) : (all values).not = .yes ↔ ¬ ∀ value ∈ values, value = .yes := by
  rw [← all_eq_yes]
  unfold all
  split
  · decide
  · simp [not]

theorem any_ne_unknown (decided : .unknown ∉ values) : any values ≠ .unknown := by
  unfold any
  split
  · decide
  · simp

end Truth

/-- How a comparator compares values of one ordered type. -/
def Comparator.holds {α : Type} [DecidableEq α] [LT α] [DecidableLT α] (comparator : Comparator)
    (left right : α) : Bool :=
  match comparator with
  | .equal => left = right
  | .notEqual => left ≠ right
  | .greater => right < left
  | .greaterOrEqual => ¬ left < right
  | .less => left < right
  | .lessOrEqual => ¬ right < left

/-- The values of an engine and the functions that statements use. The functions of a dialect are
free but for what every engine makes of texts, integers and counts. -/
structure Engine (ν : Type) where
  null : ν
  integer : Int → ν
  text : String → ν
  /-- The value that is bound to a slot. -/
  slot : Slot → ν
  /-- The clock. -/
  now : ν
  compare : Comparator → ν → ν → Truth
  successor : ν → ν
  aggregate : AggregateFunction → Multiset ν → ν
  extract : ν → Pointer → Extraction → ν
  arrayLength : ν → Pointer → ν
  pathStart : ν → ν
  pathExtend : ν → ν → ν
  offPath : ν → ν → Truth
  distance : Metric → ν → ν → ν
  like : ν → ν → Truth
  ilike : ν → ν → Truth
  arrayContains : ν → Pointer → ValueType → ν → Truth
  arrayContainsAll : ν → Pointer → ValueType → List ν → Truth
  arrayContainsAny : ν → Pointer → ValueType → List ν → Truth
  hasPath : ν → Pointer → Truth
  pathIsNull : ν → Pointer → Bool → Truth
  /-- A value comes before another one. -/
  precedes : SortDirection → Option NullsOrder → ν → ν → Bool
  text_ne_null : ∀ value, text value ≠ null
  integer_ne_null : ∀ value, integer value ≠ null
  slot_string : ∀ value, slot (.value (.string value)) = text value
  /-- What equals a text is this text. -/
  equal_text : ∀ value content, compare .equal value (text content) = .yes ↔ value = text content
  /-- Texts are equal or they are not. -/
  compare_text : ∀ first second, compare .equal (text first) (text second) = .ofBool (first == second)
  compare_integer : ∀ comparator first second,
    compare comparator (integer first) (integer second) = .ofBool (comparator.holds first second)
  successor_integer : ∀ value, successor (integer value) = integer (value + 1)
  /-- Null is not counted. -/
  count : ∀ [DecidableEq ν] (values : Multiset ν), aggregate .count values = integer (values.filter (· ≠ null)).card
  countDistinct : ∀ [DecidableEq ν] (values : Multiset ν),
    aggregate .countDistinct values = integer (values.filter (· ≠ null)).dedup.card

/-- A row: its columns with their values. -/
abbrev Record (ν : Type) := List (String × ν)

/-- The rows of a relation, each as often as it occurs. -/
abbrev Bag (ν : Type) := Multiset (Record ν)

/-- The rows in reach of a clause, each under the name that qualifies its columns. -/
abbrev Frame (ν : Type) := List (Row × Record ν)

namespace Engine

/-- The value in a column, or null where the row has no such column. Columns are named without quotes,
so that letter case does not count. -/
def field (db : Engine ν) (record : Record ν) (name : String) : ν :=
  ((record.find? (Text.sameUnquoted name ·.1)).map Prod.snd).getD db.null

section Field

variable (db : Engine ν) {name other : String} (value : ν) (rest : Record ν)

@[simp] theorem field_cons_self : db.field ((name, value) :: rest) name = value := by
  simp [field, Text.sameUnquoted]

theorem field_cons_of_ne (apart : Text.lowerAscii name ≠ Text.lowerAscii other) :
    db.field ((other, value) :: rest) name = db.field rest name := by
  simp [field, Text.sameUnquoted, apart]

end Field

/-- What a reference reads from the rows in reach. The row that an outer join does not find has no
columns. -/
def read (db : Engine ν) (frame : Frame ν) : Reference → ν
  | .column row name => db.field ((frame.lookup row).getD []) name
  | .bare name => db.field (frame.flatMap Prod.snd) name
  | .output _ => db.null

end Engine

open Condition

variable {σ τ : Type}

/-- Where a statement is evaluated. Nested statements do not read the rows around them, so that what
they return is given with the tables. -/
structure Context (ν σ : Type) where
  db : Engine ν
  tables : Table → Bag ν
  /-- The named row sets. -/
  relations : String → Bag ν
  answers : σ → Bag ν

variable [DecidableEq ν]

/-- The value of a term for a row of a group. -/
def Term.eval (db : Engine ν) : Multiset (Frame ν) → Frame ν → Term → ν
  | _, frame, .column row name => db.read frame (.column row name)
  | _, frame, .bare name => db.read frame (.bare name)
  | _, frame, .output name => db.read frame (.output name)
  | _, _, .integer value => db.integer value
  | _, _, .slot place => db.slot place
  | _, _, .now => db.now
  | group, frame, .successor term => db.successor (eval db group frame term)
  | group, frame, .orZero term =>
      let value := eval db group frame term
      if value = db.null then db.integer 0 else value
  | group, _, .aggregate function argument =>
      db.aggregate function (group.map fun member => eval db 0 member argument)
  | group, frame, .extract document pointer extraction =>
      db.extract (eval db group frame document) pointer extraction
  | group, frame, .arrayLength document pointer => db.arrayLength (eval db group frame document) pointer
  | group, frame, .pathStart id => db.pathStart (eval db group frame id)
  | group, frame, .pathExtend path id =>
      db.pathExtend (eval db group frame path) (eval db group frame id)
  | group, frame, .distance metric embedding vector =>
      db.distance metric (eval db group frame embedding) (eval db group frame vector)

namespace Condition

mutual

/-- The value of a condition for a row of a group. -/
def truth (world : Context ν σ) (group : Multiset (Frame ν)) (frame : Frame ν) : Condition σ → Truth
  | .constant value => .ofBool value
  | .compare left comparator right =>
      world.db.compare comparator (left.eval world.db group frame) (right.eval world.db group frame)
  | .isNull term negated =>
      (Truth.ofBool (term.eval world.db group frame = world.db.null)).negateIf negated
  | .isIn term values negated =>
      (Truth.any ((values.map (Term.eval world.db group frame)).map
        (world.db.compare .equal (term.eval world.db group frame)))).negateIf negated
  | .between term lower upper =>
      let value := term.eval world.db group frame
      Truth.all
        {world.db.compare .greaterOrEqual value (lower.eval world.db group frame),
          world.db.compare .lessOrEqual value (upper.eval world.db group frame)}
  | .like text pattern =>
      world.db.like (text.eval world.db group frame) (pattern.eval world.db group frame)
  | .ilike text pattern =>
      world.db.ilike (text.eval world.db group frame) (pattern.eval world.db group frame)
  | .arrayContains document pointer valueType value =>
      world.db.arrayContains (document.eval world.db group frame) pointer valueType (value.eval world.db group frame)
  | .arrayContainsAll document pointer valueType values =>
      world.db.arrayContainsAll (document.eval world.db group frame) pointer valueType
        (values.map (Term.eval world.db group frame))
  | .arrayContainsAny document pointer valueType values =>
      world.db.arrayContainsAny (document.eval world.db group frame) pointer valueType
        (values.map (Term.eval world.db group frame))
  | .hasPath document pointer => world.db.hasPath (document.eval world.db group frame) pointer
  | .pathIsNull document pointer negated =>
      world.db.pathIsNull (document.eval world.db group frame) pointer negated
  | .offPath path id =>
      world.db.offPath (path.eval world.db group frame) (id.eval world.db group frame)
  | .all conditions => .all (truths world group frame conditions)
  | .any conditions => .any (truths world group frame conditions)
  | .notAll conditions => (Truth.all (truths world group frame conditions)).not
  | .equalsCase term guard first second =>
      world.db.compare .equal (term.eval world.db group frame)
        (if truth world group frame guard = .yes then first.eval world.db group frame
        else second.eval world.db group frame)
  | .subquery statement negated => (Truth.ofBool ((world.answers statement).card ≠ 0)).negateIf negated
  | .inSubquery term statement negated =>
      (Truth.any ((world.answers statement).map fun record =>
        world.db.compare .equal (term.eval world.db group frame)
          ((record.head?.map Prod.snd).getD world.db.null))).negateIf negated

def truths (world : Context ν σ) (group : Multiset (Frame ν)) (frame : Frame ν) : List (Condition σ) → List Truth
  | [] => []
  | condition :: rest => truth world group frame condition :: truths world group frame rest

end

theorem truths_eq_map (world : Context ν σ) (group : Multiset (Frame ν)) (frame : Frame ν)
    (conditions : List (Condition σ)) :
    truths world group frame conditions = conditions.map (truth world group frame) := by
  induction conditions with
  | nil => rfl
  | cons condition rest ih => simp [truths, ih]

end Condition

/-- The conditions all hold of the rows in reach. -/
def Context.Holds (world : Context ν σ) (frame : Frame ν) (conditions : List (Condition σ)) :
    Prop := ∀ condition ∈ conditions, condition.truth world 0 frame = .yes

instance (world : Context ν σ) (frame : Frame ν) (conditions : List (Condition σ)) :
    Decidable (world.Holds frame conditions) :=
  inferInstanceAs (Decidable (∀ condition ∈ conditions, condition.truth world 0 frame = .yes))

namespace Context

variable {world : Context ν σ} {frame : Frame ν}

@[simp] theorem holds_nil : world.Holds frame [] := by simp [Holds]

@[simp] theorem holds_cons {condition : Condition σ} {rest : List (Condition σ)} :
    world.Holds frame (condition :: rest) ↔ condition.truth world 0 frame = .yes ∧ world.Holds frame rest := by
  simp [Holds]

@[simp] theorem holds_append {first second : List (Condition σ)} : world.Holds frame (first ++ second) ↔
      world.Holds frame first ∧ world.Holds frame second := by
  simp [Holds, or_imp, forall_and]

variable {conditions : List (Condition σ)}

theorem truth_all : (all conditions).truth world 0 frame = .yes ↔ world.Holds frame conditions := by
  simp [truth, truths_eq_map, Holds]

theorem truth_any : (any conditions).truth world 0 frame = .yes ↔
      ∃ condition ∈ conditions, condition.truth world 0 frame = .yes := by
  simp [truth, truths_eq_map]

theorem truth_notAll (decided : ∀ condition ∈ conditions, condition.truth world 0 frame ≠ .unknown) :
    (notAll conditions).truth world 0 frame = .yes ↔ ¬ world.Holds frame conditions := by
  rw [truth, truths_eq_map, Truth.not_all_eq_yes]
  · simp [Holds]
  · simpa using decided

end Context

end GraphSql
