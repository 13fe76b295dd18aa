namespace GraphSql

/-- Why a name is outside the identifier grammar. -/
inductive IdentifierFault where
  | empty
  | tooLong
  | malformed
  deriving DecidableEq, Repr

def IdentifierFault.reason : IdentifierFault → String
  | .empty => "identifier must not be empty"
  | .tooLong => "identifier exceeds 63 characters"
  | .malformed =>
      "must start with a letter or underscore and contain only letters, digits, '_' or '$'"

/-- Why a text is no JSON pointer. -/
inductive PointerFault where
  | noSlash
  | badEscape
  deriving DecidableEq, Repr

def PointerFault.reason : PointerFault → String
  | .noSlash => "pointer must be empty or start with '/'"
  | .badEscape => "'~' must be followed by '0' or '1'"

/-- A name, table name or pointer that cannot be used. -/
inductive ConfigError where
  | invalidIdentifier (name : String) (fault : IdentifierFault)
  | reservedKeyword (name : String)
  | invalidPointer (pointer : String) (fault : PointerFault)
  deriving DecidableEq, Repr

def ConfigError.message : ConfigError → String
  | .invalidIdentifier name fault => s!"invalid identifier '{name}': {fault.reason}"
  | .reservedKeyword name => s!"identifier '{name}' is a reserved SQL keyword"
  | .invalidPointer pointer fault => s!"invalid JSON pointer '{pointer}': {fault.reason}"

end GraphSql
