import GraphSql.CompileError
import GraphSql.Fragment
import GraphSql.Plan

namespace GraphSql

structure CompiledQuery where
  dialect : Dialect
  fragment : Fragment
  plan : Plan

namespace Slot

/-- The name of a value that is bound later. -/
def name? : Slot → Option String
  | .value _ => none
  | .named name _ => some name

/-- The value of a slot, given the named values. -/
def bind (dialect : Dialect) (values : List (String × Json)) : Slot → Except BindError Json
  | .value known => .ok (dialect.bindValue known)
  | .named name transform =>
      match values.find? (·.1 == name) with
      | none => .error (.missingParameter name)
      | some (_, given) =>
          match transform.apply given with
          | none => .error (.expectedString name (.ofJson given))
          | some result => .ok (dialect.bindValue result)

end Slot

namespace CompiledQuery

def text (query : CompiledQuery) : String := query.fragment.text query.dialect

/-- One slot for each placeholder, in order. -/
def slots (query : CompiledQuery) : List Slot := query.fragment.slots

/-- The names of the values to bind, in the order of their placeholders. -/
def names (query : CompiledQuery) : List String := query.slots.filterMap Slot.name?

/-- One value for each placeholder; the first slot without a value is the error. -/
def bind (query : CompiledQuery) (values : List (String × Json)) : Except BindError (List Json) :=
  query.slots.mapM (Slot.bind query.dialect values)

/-- The statement with the known values written into it, for reading only. -/
def inline (query : CompiledQuery) : String := query.fragment.inline query.dialect

end CompiledQuery

end GraphSql
