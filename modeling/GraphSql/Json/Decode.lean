import GraphSql.Json
import GraphSql.Named

namespace GraphSql.Json

variable {α : Type}

def asString : Json → Option String
  | .string value => some value
  | _ => none

def asBool : Json → Option Bool
  | .bool value => some value
  | _ => none

/-- Only an integer in range; `1.0` is none. -/
def asInteger (least greatest : Int) : Json → Option Int
  | .number (.integer value) => if least ≤ value && value ≤ greatest then some value else none
  | _ => none

def asUInt64 (value : Json) : Option UInt64 :=
  (value.asInteger 0 (UInt64.size - 1)).map fun number => UInt64.ofNat number.toNat

def asUInt32 (value : Json) : Option UInt32 :=
  (value.asInteger 0 (UInt32.size - 1)).map fun number => UInt32.ofNat number.toNat

def asInt64 (value : Json) : Option Int64 := (value.asInteger Int64.minValue.toInt Int64.maxValue.toInt).map Int64.ofInt

/-- Any number, rounded to the nearest double. -/
def asDouble : Json → Option Float
  | .number (.integer value) =>
      some (if value < 0 then (Int64.ofInt value).toFloat else (UInt64.ofNat value.toNat).toFloat)
  | .number (.double value) => some value
  | _ => none

/-- Any number, rounded to the nearest single. -/
def asSingle : Json → Option Float32
  | .number (.integer value) =>
      some (if value < 0 then (Int64.ofInt value).toFloat32
        else (UInt64.ofNat value.toNat).toFloat32)
  | .number (.double value) => some (narrow value)
  | _ => none

/-- How many ways there are to write a name. Reading is lenient within an object that has a tag. -/
inductive Reading where
  | strict
  | lenient
  deriving DecidableEq, Repr

/-- The value adds nothing to the name it belongs to. -/
def isVoid : Reading → Json → Bool
  | _, .null => true
  | .lenient, .object [] => true
  | _, _ => false

/-- The name of a member of a finite type. The name may also stand as the only key of an object
whose value is void. -/
def asName [Named α] (reading : Reading) : Json → Option α
  | .string text => Named.ofName? text
  | .object [(key, value)] => if isVoid reading value then Named.ofName? key else none
  | _ => none

/-- The tag of an object. A lenient reading also takes its position among all tags. -/
def asTag [Named α] : Reading → Json → Option α
  | _, .string text => Named.ofName? text
  | .lenient, .number (.integer (.ofNat index)) => Named.members[index]?
  | _, _ => none

def asList (read : Json → Option α) : Json → Option (List α)
  | .array items => items.mapM read
  | _ => none

/-- A member that has to be there. -/
def need (json : Json) (key : String) (read : Json → Option α) : Option α := (json.member? key).bind read

/-- A member that may be absent or null. -/
def maybe (json : Json) (key : String) (read : Json → Option α) : Option (Option α) :=
  match json.member? key with
  | none | some .null => some none
  | some value => (read value).map some

/-- A member with a default; null is no default. -/
def getOr (json : Json) (key : String) (default : α) (read : Json → Option α) : Option α :=
  match json.member? key with
  | none => some default
  | some value => read value

theorem sizeOf_member {json value : Json} {key : String} (found : json.member? key = some value) :
    sizeOf value < sizeOf json := by
  cases json with
  | object members =>
      simp only [member?, Option.map_eq_some_iff] at found
      obtain ⟨member, found, rfl⟩ := found
      have inMembers := List.sizeOf_lt_of_mem (List.mem_of_find?_eq_some found)
      cases member
      simp only [Prod.mk.sizeOf_spec] at inMembers
      simp only [object.sizeOf_spec]
      omega
  | _ => simp [member?] at found

theorem sizeOf_item {json item : Json} {items : List Json} {key : String}
    (found : json.member? key = some (.array items)) (inItems : item ∈ items) :
    sizeOf item < sizeOf json := by
  have smaller := sizeOf_member found
  have itemSmaller := List.sizeOf_lt_of_mem inItems
  simp only [array.sizeOf_spec] at smaller
  omega

/-- A member that has to be there; its reader may rely on its being smaller than the object. -/
def needChild (json : Json) (key : String) (read : (value : Json) → sizeOf value < sizeOf json → Option α) : Option α :=
  match found : json.member? key with
  | none => none
  | some value => read value (sizeOf_member found)

/-- A member that may be absent or null; its reader may rely on its being smaller. -/
def maybeChild (json : Json) (key : String)
    (read : (value : Json) → sizeOf value < sizeOf json → Option α) : Option (Option α) :=
  match found : json.member? key with
  | none | some .null => some none
  | some value => (read value (sizeOf_member found)).map some

/-- The items of a list that has to be there. -/
def needChildren (json : Json) (key : String)
    (read : (value : Json) → sizeOf value < sizeOf json → Option α) : Option (List α) :=
  match found : json.member? key with
  | some (.array items) => items.attach.mapM fun item => read item.1 (sizeOf_item found item.2)
  | _ => none

/-- The items of a list; an absent list is empty. -/
def childrenOrNone (json : Json) (key : String)
    (read : (value : Json) → sizeOf value < sizeOf json → Option α) : Option (List α) :=
  match json.member? key with
  | none => some []
  | some _ => json.needChildren key read

@[simp] theorem needChild_eq (json : Json) (key : String) (read : Json → Option α) :
    json.needChild key (fun value _ => read value) = json.need key read := by
  unfold needChild need
  split <;> simp_all

@[simp] theorem maybeChild_eq (json : Json) (key : String) (read : Json → Option α) :
    json.maybeChild key (fun value _ => read value) = json.maybe key read := by
  unfold maybeChild maybe
  split <;> simp_all

@[simp] theorem needChildren_eq (json : Json) (key : String) (read : Json → Option α) :
    json.needChildren key (fun value _ => read value) = json.need key (asList read) := by
  unfold needChildren need asList
  split
  · next items found =>
      simp only [found, Option.bind_some]
      rw [List.mapM_subtype (g := read) fun item inItems => rfl, List.unattach_attach]
  · next other =>
      cases found : json.member? key with
      | none => rfl
      | some value =>
          cases value <;> simp_all

@[simp] theorem childrenOrNone_eq (json : Json) (key : String) (read : Json → Option α) :
    json.childrenOrNone key (fun value _ => read value) = json.getOr key [] (asList read) := by
  unfold childrenOrNone getOr
  split <;> simp_all [need]

end GraphSql.Json
