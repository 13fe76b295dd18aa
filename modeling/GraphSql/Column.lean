import GraphSql.ValueType

namespace GraphSql

/-- The two kinds of rows that a query reads. -/
inductive Element where
  | node
  | edge
  deriving DecidableEq, Repr

instance : Named Element where
  members := [.node, .edge]
  name
    | .node => "node"
    | .edge => "edge"

inductive Column where
  | id
  | kind
  | fromKind
  | fromId
  | toKind
  | toId
  | props
  | version
  | validFrom
  | validTo
  | createdAt
  | updatedAt
  | deletedAt
  deriving DecidableEq, Repr

namespace Column

/-- Every column, in the order in which row sets carry them. -/
def all : List Column :=
  [.id, .kind, .fromKind, .fromId, .toKind, .toId, .props, .version, .validFrom, .validTo,
    .createdAt, .updatedAt, .deletedAt]

def name : Column → String
  | .id => "id"
  | .kind => "kind"
  | .fromKind => "from_kind"
  | .fromId => "from_id"
  | .toKind => "to_kind"
  | .toId => "to_id"
  | .props => "props"
  | .version => "version"
  | .validFrom => "valid_from"
  | .validTo => "valid_to"
  | .createdAt => "created_at"
  | .updatedAt => "updated_at"
  | .deletedAt => "deleted_at"

/-- The second spelling of a column in field paths. -/
def camelName? : Column → Option String
  | .fromKind => some "fromKind"
  | .fromId => some "fromId"
  | .toKind => some "toKind"
  | .toId => some "toId"
  | .validFrom => some "validFrom"
  | .validTo => some "validTo"
  | .createdAt => some "createdAt"
  | .updatedAt => some "updatedAt"
  | .deletedAt => some "deletedAt"
  | .id | .kind | .props | .version => none

def ofName? (text : String) : Option Column :=
  all.find? fun column => column.name == text || column.camelName? == some text

def valueType : Column → ValueType
  | .id | .kind | .fromKind | .fromId | .toKind | .toId => .string
  | .props => .object
  | .version => .number
  | .validFrom | .validTo | .createdAt | .updatedAt | .deletedAt => .date

/-- Only edges have end points, only nodes have a version. -/
def existsOn (column : Column) : Element → Bool
  | .node =>
      match column with
      | .fromKind | .fromId | .toKind | .toId => false
      | _ => true
  | .edge => column != .version

/-- The columns of a table in the order in which they are projected. -/
def ofElement (element : Element) : List Column := all.filter (·.existsOn element)

/-- The columns that a row set always carries, so that others can be joined to it. -/
def joinKeys : Element → List Column
  | .node => [.id, .kind]
  | .edge => [.id]

end Column

end GraphSql
