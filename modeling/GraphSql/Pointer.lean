import GraphSql.ConfigError

namespace GraphSql

/-- The address of a value inside a document, one unescaped segment per step. -/
structure Pointer where
  segments : List String
  deriving DecidableEq, Repr

namespace Pointer

def root : Pointer := ⟨[]⟩

def isRoot (pointer : Pointer) : Bool := pointer.segments.isEmpty

def join (base rest : Pointer) : Pointer := ⟨base.segments ++ rest.segments⟩

def leaf? (pointer : Pointer) : Option String := pointer.segments.getLast?

/-- Undoes `~0` and `~1`; a tilde before anything else is refused. -/
def unescape : List Char → Option (List Char)
  | [] => some []
  | '~' :: '0' :: rest => (unescape rest).map ('~' :: ·)
  | '~' :: '1' :: rest => (unescape rest).map ('/' :: ·)
  | c :: rest => if c = '~' then none else (unescape rest).map (c :: ·)

/-- Writes a tilde as `~0` and a slash as `~1`. -/
def escape (segment : List Char) : List Char :=
  segment.flatMap fun c => if c = '~' then ['~', '0'] else if c = '/' then ['~', '1'] else [c]

/-- The parts between slashes. -/
def splitSlashes : List Char → List (List Char)
  | [] => [[]]
  | c :: rest =>
      if c = '/' then [] :: splitSlashes rest
      else match splitSlashes rest with
        | [] => [[c]]
        | first :: others => (c :: first) :: others

def parse (text : String) : Except ConfigError Pointer :=
  match text.toList with
  | [] => .ok root
  | '/' :: rest =>
      match (splitSlashes rest).mapM unescape with
      | some segments => .ok ⟨segments.map String.ofList⟩
      | none => .error (.invalidPointer text .badEscape)
  | _ => .error (.invalidPointer text .noSlash)

def displayCharacters (pointer : Pointer) : List Char :=
  pointer.segments.flatMap fun segment => '/' :: escape segment.toList

def display (pointer : Pointer) : String := String.ofList pointer.displayCharacters

/-- A segment that addresses an array element: decimal digits without a leading zero. -/
def isArrayIndex (segment : String) : Bool :=
  let characters := segment.toList
  !characters.isEmpty && characters.all Char.isDigit && (characters == ['0'] || characters.head? != some '0')

end Pointer

end GraphSql
