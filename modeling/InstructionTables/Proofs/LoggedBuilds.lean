import InstructionTables.Proofs.RefusedReads

/-! What a build has logged when it ends. A step keeps what it has made also where it fails, and the
events are read off that once, at the end. A step grows the log if the events at its end start with
those at its beginning. Steps that grow the log do so one after the other, wherever they fail. -/
namespace InstructionTables.Build

variable {ε σ α β : Type}

/-! ## Ends of runs -/

/-- The state that a run ends in, whether or not it succeeds. -/
def endState : EStateM.Result ε σ α → σ
  | .ok _ state => state
  | .error _ state => state

/-- Two steps end where the second one does, or where the first one fails. -/
theorem endState_bind (first : EStateM ε σ α) (next : α → EStateM ε σ β) (before : σ) :
    endState ((first >>= next).run before) = match first.run before with
      | .ok value middle => endState ((next value).run middle)
      | .error _ last => last := by
  rw [EStateM.run_bind]
  cases first.run before <;> rfl

section Reports

variable {kind : PayloadKind} {payload : List UInt8} {nothing : σ} {build : Build σ α}
variable {events : σ → List Event} {completion : α → Nat → Event} {fault : Fault}

end Reports

/-! ## Growing logs -/

/-- The events at the end of a step start with those at its beginning. -/
def Grows (events : σ → List Event) (step : Build σ α) : Prop :=
  ∀ before, events before.made <+: events (endState (step.run before)).made

section Growing

variable {events : σ → List Event}

/-- What is logged by the first of two steps stays when the second one grows the log. -/
theorem Grows.behind {next : α → Build σ β} (others : ∀ value, Grows events (next value))
    (first : Build σ α) (before : State σ) :
    events (endState (first.run before)).made <+:
      events (endState ((first >>= next).run before)).made := by
  rw [endState_bind]
  cases first.run before with
  | error fault last => exact List.prefix_rfl
  | ok value middle => exact others value middle

/-- Steps in order grow the log if each of them does. -/
theorem Grows.bind {first : Build σ α} {next : α → Build σ β} (grows : Grows events first)
    (others : ∀ value, Grows events (next value)) : Grows events (first >>= next) :=
  fun before => (grows before).trans (Grows.behind others first before)

end Growing

end InstructionTables.Build
