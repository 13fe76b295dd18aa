import GraphSql.Query.Block
import GraphSql.Statement.Select

namespace GraphSql

/-- The point in time at which rows have to be visible, if the mode asks for one. -/
def TemporalMode.now (mode : TemporalMode) (opts : Options) : Option Term :=
  match mode with
  | .asOf timestamp => some (.text timestamp)
  | .current =>
      match opts.now with
      | some instant => some (.text instant.writeMilliseconds)
      | none => some .now
  | .includeEnded | .includeTombstones => none

/-- A row is not deleted and, at a point in time, its validity has begun and has not ended. -/
def TemporalMode.conditions {σ : Type} (mode : TemporalMode) (now : Option Term)
    (element : Element) : List (Condition σ) :=
  let notDeleted : Condition σ := .isNull (.ofColumn element .deletedAt) false
  match mode, now with
  | .includeTombstones, _ => []
  | .includeEnded, _ | _, none => [notDeleted]
  | .current, some moment | .asOf _, some moment =>
      let validFrom := Term.ofColumn element .validFrom
      let validTo := Term.ofColumn element .validTo
      [notDeleted, .any [.isNull validFrom false, .compare validFrom .lessOrEqual moment],
        .any [.isNull validTo false, .compare validTo .greater moment]]

end GraphSql
