namespace GraphSql

/-- A finite type with a list of its members and one name for each. -/
class Named (α : Type) where
  members : List α
  name : α → String

namespace Named

/-- The first member with the given name. -/
def ofName? {α : Type} [Named α] (text : String) : Option α := members.find? fun value : α => name value == text

end Named

end GraphSql
