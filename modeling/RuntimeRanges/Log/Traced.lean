import RuntimeRanges.Log.Event

/-!
Computations that leave a trace of events. The outcome of a computation does not depend on its trace:
`outcome_bind` and its companions turn it into a plain computation.
-/

namespace RuntimeRanges.Log

/-- The events of a computation, which ends with a value or an error. -/
structure Traced (ε : Type) (α : Type) where
  events : List Event
  outcome : Except ε α

namespace Traced

variable {ε α β : Type}

/-- Goes on with the value; an error ends the computation, and the events before it remain. -/
def bind (x : Traced ε α) (f : α → Traced ε β) : Traced ε β :=
  match x.outcome with
  | .error e => ⟨x.events, .error e⟩
  | .ok a => ⟨x.events ++ (f a).events, (f a).outcome⟩

instance : Monad (Traced ε) where
  pure a := ⟨[], .ok a⟩
  bind := bind

def lift (outcome : Except ε α) : Traced ε α :=
  ⟨[], outcome⟩

def emit (e : Event) : Traced ε Unit :=
  ⟨[e], .ok ()⟩

def emitAll (es : List Event) : Traced ε Unit :=
  ⟨es, .ok ()⟩

def mapError {δ : Type} (f : ε → δ) (x : Traced ε α) : Traced δ α :=
  ⟨x.events, x.outcome.mapError f⟩

@[simp]
theorem outcome_pure (a : α) : (pure a : Traced ε α).outcome = .ok a := rfl

@[simp]
theorem outcome_bind (x : Traced ε α) (f : α → Traced ε β) :
    (x >>= f).outcome = x.outcome >>= fun a => (f a).outcome := by
  show (x.bind f).outcome = _
  unfold bind
  cases x.outcome <;> rfl

@[simp]
theorem outcome_lift (outcome : Except ε α) : (lift outcome).outcome = outcome := rfl

@[simp]
theorem outcome_emit (e : Event) : (emit e : Traced ε Unit).outcome = .ok () := rfl

@[simp]
theorem outcome_mapError {δ : Type} (f : ε → δ) (x : Traced ε α) :
    (x.mapError f).outcome = x.outcome.mapError f := rfl

end Traced

end RuntimeRanges.Log
