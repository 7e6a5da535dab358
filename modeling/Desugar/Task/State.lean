/-!
# States of bound tasks

A `TaskState` holds the outcome of a task for a name that is bound to it. It is settled at most
once, by a value or by a failure, and can be read any number of times. The outcome travels through
a channel with room for one message; the first reader passes a gate, takes the message and keeps
it, and all readers see what was kept.

Every operation is a sequence of atomic steps, which other threads may come between:

* a writer swaps `settled` (`TaskState.claim`) and, if it was the first, sends (`TaskState.send`);
* a reader that finds no kept outcome enters the gate (`TaskState.enter`) and, once there is a
  message, takes and keeps it (`TaskState.receive`).

`TaskState.settle` and `TaskState.read?` are the operations of a thread that is not disturbed.
-/

namespace Desugar

/-- How a task ended. -/
inductive TaskOutcome (α : Type) where
  | value (result : α)
  | failed (message : String)
deriving DecidableEq

/-- Why an operation on a state has no result. -/
inductive StateError where
  /-- The task failed. -/
  | failed (message : String)
  /-- The state was settled before. -/
  | alreadySettled
deriving DecidableEq

/-- The error in words. -/
def StateError.message : StateError → String
  | .failed message => "dispatched task failed: " ++ message
  | .alreadySettled => "sync state was already settled"

/-- What a reader is given for an outcome. -/
def TaskOutcome.reading {α : Type} : TaskOutcome α → Except StateError α
  | .value result => .ok result
  | .failed message => .error (.failed message)

/-- The state of a name bound to a task. -/
structure TaskState (α : Type) where
  /-- Some writer has claimed the state. -/
  settled : Bool := false
  /-- The message that was sent and not yet received. -/
  channel : Option (TaskOutcome α) := none
  /-- The outcome that was kept for all readers. -/
  kept : Option (TaskOutcome α) := none
  /-- A reader has entered the gate. -/
  entered : Bool := false
  /-- How many receives have been started. -/
  receives : Nat := 0

namespace TaskState

variable {α : Type}

/-! ## Atomic steps -/

/-- Swaps `settled`; tells whether this is the first time. -/
def claim (s : TaskState α) : Bool × TaskState α := (!s.settled, { s with settled := true })

/-- Sends an outcome. -/
def send (s : TaskState α) (outcome : TaskOutcome α) : TaskState α :=
  { s with channel := some outcome }

/-- Enters the gate, if no one has and nothing is kept. -/
def enter (s : TaskState α) : TaskState α :=
  if s.kept.isSome || s.entered then s else { s with entered := true, receives := s.receives + 1 }

/-- Takes the message behind the gate, if there is one, and keeps it. -/
def receive (s : TaskState α) : TaskState α :=
  match s.entered, s.kept, s.channel with
  | true, none, some outcome => { s with channel := none, kept := some outcome }
  | _, _, _ => s

/-! ## Operations -/

/-- Settles a state with an outcome. -/
def settle (s : TaskState α) (outcome : TaskOutcome α) : Except StateError Unit × TaskState α :=
  match s.claim with
  | (true, s) => (.ok (), s.send outcome)
  | (false, s) => (.error .alreadySettled, s)

/-- Reads a state: what the reader is given and the state afterwards. A reader of a state that is
not settled would wait, and has no reading. -/
def read? (s : TaskState α) : Option (Except StateError α × TaskState α) :=
  let s := s.enter.receive
  s.kept.map fun outcome => (outcome.reading, s)

end TaskState

end Desugar
