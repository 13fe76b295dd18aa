import GraphSql.Statement.Compound

namespace GraphSql

namespace Plan

/-- The clauses that the plan asks for. -/
def describeClauses (plan : Plan) : String :=
  s!"plan: sort={plan.hasSort} limit_offset={plan.hasLimitOffset} " ++
    s!"group_by={plan.hasGroupBy} having={plan.hasHaving}"

/-- A clause is written if and only if the plan asks for it. -/
def checkClause (plan : Plan) (clause : String) (written planned : Bool) : Attempt Unit :=
  match written, planned with
  | true, false =>
      .error (.invariant "emit" s!"{clause} clause emitted without a matching plan node" plan.describeClauses)
  | false, true =>
      .error (.invariant "emit" s!"plan requires {clause} but no clause was emitted" plan.describeClauses)
  | _, _ => .ok ()

/-- All clauses after the row source agree with the plan. -/
def checkClauses (plan : Plan) (orderBy bounds groupBy having : Bool) : Attempt Unit := do
  plan.checkClause "ORDER BY" orderBy plan.hasSort
  plan.checkClause "LIMIT/OFFSET" bounds plan.hasLimitOffset
  plan.checkClause "GROUP BY" groupBy plan.hasGroupBy
  plan.checkClause "HAVING" having plan.hasHaving

end Plan

def Select.check {σ : Type} (select : Select σ) (plan : Plan) : Attempt Unit :=
  plan.checkClauses (!select.orderBy.isEmpty) select.bounds.isSome (!select.groupBy.isEmpty) select.having.isSome

/-- A compound has no grouping of its own. -/
def Compound.check (compound : Compound) (plan : Plan) : Attempt Unit :=
  plan.checkClauses (!compound.orderBy.isEmpty) compound.bounds.isSome false false

end GraphSql
