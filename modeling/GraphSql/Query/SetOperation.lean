import GraphSql.Query.Block

namespace GraphSql

mutual

/-- One side of a set operation. -/
inductive SetOperand where
  | query (query : Query)
  | operation (operation : SetOperation)

/-- Two operands, with an order and bounds for the combined rows. -/
structure SetOperation where
  operator : SetOperator
  left : SetOperand
  right : SetOperand
  orderBy : List Order
  limit : Option UInt64
  offset : Option UInt64

end

/-- An operation without order and bounds. -/
def SetOperation.plain (op : SetOperator) (left right : SetOperand) : SetOperation :=
  ⟨op, left, right, [], none, none⟩

/-- The operation orders or bounds its rows. -/
def SetOperation.hasClauses (operation : SetOperation) : Bool :=
  !operation.orderBy.isEmpty || operation.limit.isSome || operation.offset.isSome

mutual

/-- The query whose columns are the columns of the result. -/
def SetOperand.leftmost : SetOperand → Query
  | .query query => query
  | .operation operation => SetOperation.leftmost operation

def SetOperation.leftmost : SetOperation → Query
  | ⟨_, left, _, _, _, _⟩ => SetOperand.leftmost left

end

mutual

/-- The queries from left to right. -/
def SetOperand.leaves : SetOperand → List Query
  | .query query => [query]
  | .operation operation => SetOperation.leaves operation

def SetOperation.leaves : SetOperation → List Query
  | ⟨_, left, right, _, _, _⟩ => SetOperand.leaves left ++ SetOperand.leaves right

end

end GraphSql
