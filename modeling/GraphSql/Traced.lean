import GraphSql.CompileError
import GraphSql.Event

namespace GraphSql

/-- The events of a computation and its result. An error keeps the events before it. -/
structure Traced (α : Type) where
  events : List Event
  result : Attempt α

namespace Traced

variable {α β : Type}

def logged (event : Event) : Traced Unit := ⟨[event], .ok ()⟩

/-- A computation that logs nothing. -/
def ofExcept (result : Attempt α) : Traced α := ⟨[], result⟩

instance : MonadLift Attempt Traced := ⟨ofExcept⟩

instance : Monad Traced where
  pure value := ⟨[], .ok value⟩
  bind computation next :=
    match computation with
    | ⟨events, .error error⟩ => ⟨events, .error error⟩
    | ⟨events, .ok value⟩ =>
        let after := next value
        ⟨events ++ after.events, after.result⟩

@[simp] theorem result_pure (value : α) : (pure value : Traced α).result = .ok value := rfl

@[simp] theorem result_logged (event : Event) : (logged event).result = .ok () := rfl

@[simp] theorem result_ofExcept (result : Attempt α) : (ofExcept result).result = result := rfl

/-- The result of two computations in a row does not depend on what they log. -/
@[simp] theorem result_bind (computation : Traced α) (next : α → Traced β) :
    (computation >>= next).result = computation.result >>= fun value => (next value).result := by
  cases computation with
  | mk events result => cases result <;> rfl

end Traced

end GraphSql
