import GraphSql.ConfigError
import GraphSql.Text.Case
import GraphSql.Text.Quoted

namespace GraphSql

/-- Words that neither engine takes as a name. -/
def reservedKeywords : List String :=
  ["all", "alter", "analyze", "and", "any", "array", "as", "asc", "between", "both", "by",
    "case", "cast", "check", "collate", "column", "constraint", "create", "cross", "current",
    "current_date", "current_time", "current_timestamp", "default", "delete", "desc",
    "distinct", "do", "drop", "else", "end", "except", "exists", "false", "fetch", "for",
    "foreign", "from", "full", "grant", "group", "having", "in", "index", "inner", "insert",
    "intersect", "into", "is", "join", "leading", "left", "like", "limit", "natural", "not",
    "null", "offset", "on", "or", "order", "outer", "primary", "recursive", "references",
    "returning", "right", "select", "set", "some", "table", "then", "to", "trailing", "true",
    "union", "unique", "update", "using", "values", "when", "where", "window", "with"]

/-- Looks for a word in an ordered list, in the half that can hold it. -/
@[semireducible] def Text.bisect (words : List String) (word : String) : Bool :=
  match found : words.drop (words.length / 2) with
  | [] => false
  | middle :: later =>
    if word < middle then bisect (words.take (words.length / 2)) word
    else if middle < word then bisect later word
    else true
termination_by words.length
decreasing_by all_goals
  have lengths := congrArg List.length found
  simp only [List.length_drop, List.length_cons, List.length_take] at lengths ⊢
  omega

/-- Keywords are reserved in any letter case. -/
def isReservedKeyword (name : String) : Bool := Text.bisect reservedKeywords (Text.lowerAscii name)

/-- PostgreSQL keeps this many bytes of a name. -/
def maxIdentifierBytes : Nat := 63

namespace Identifier

def isFirst (c : Char) : Bool := c.isAlpha || c == '_'

def isRest (c : Char) : Bool := c.isAlphanum || c == '_' || c == '$'

/-- A letter or underscore, then letters, digits, underscores and dollar signs, all ASCII. -/
def hasShape : List Char → Bool
  | [] => false
  | first :: rest => isFirst first && rest.all isRest

/-- The length is counted in bytes of UTF-8 and is checked before the characters. -/
def check (name : String) : Except ConfigError Unit :=
  if name.isEmpty then .error (.invalidIdentifier name .empty)
  else if maxIdentifierBytes < name.utf8ByteSize then .error (.invalidIdentifier name .tooLong)
  else if !hasShape name.toList then .error (.invalidIdentifier name .malformed)
  else if isReservedKeyword name then .error (.reservedKeyword name)
  else .ok ()

end Identifier

/-- A name that passed the check. -/
structure Identifier where
  text : String
  valid : Identifier.check text = .ok ()

namespace Identifier

def ofString (name : String) : Except ConfigError Identifier :=
  match valid : check name with
  | .ok () => .ok ⟨name, valid⟩
  | .error error => .error error

def quoted (identifier : Identifier) : String := Text.quoteName identifier.text

end Identifier

end GraphSql
