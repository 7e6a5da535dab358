import Desugar.Event
import Desugar.Task.State

/-!
# A board of states

Several states side by side, the tasks that settle them and the readers that wait for them. A
task delivers its results in order; a result or failure that comes too late for its state is
dropped, and the task records that.
-/

namespace Desugar

/-- What a task did: it returned, or it failed with something that may be a message. -/
inductive TaskEnd (α : Type) where
  | returned (result : α)
  | failed (message : Option String)

namespace TaskEnd

variable {α β : Type}

/-- The outcome that a state is settled with. -/
def outcome : TaskEnd α → TaskOutcome α
  | returned result => .value result
  | failed message => .failed (message.getD "task panicked")

/-- A part of the result of a task. -/
def map (f : α → β) : TaskEnd α → TaskEnd β
  | returned result => returned (f result)
  | failed message => failed message

end TaskEnd

/-- The event of an outcome that a state did not take. -/
def TaskOutcome.dropped {α : Type} (outcome : TaskOutcome α) (error : StateError) : Event :=
  match outcome with
  | .value _ => .droppedResult error.message
  | .failed _ => .droppedFailure error.message

/-- A state and the number of readers that wait for it. -/
structure Watched (α : Type) where
  state : TaskState α := {}
  readers : Nat := 0

namespace Watched

variable {α : Type}

/-- Starts readers, of which the first enters the gate. -/
def start (w : Watched α) (count : Nat) : Watched α :=
  { state := if count = 0 then w.state else w.state.enter.receive, readers := w.readers + count }

/-- Waits for the readers and gives what each of them read, if the state is settled. -/
def join? (w : Watched α) : Option (List (Except StateError α) × Watched α) :=
  if w.state.settled then
    match w.readers with
    | 0 => some ([], w)
    | count + 1 =>
      w.state.read?.map fun (reading, state) =>
        (List.replicate (count + 1) reading, { state, readers := 0 })
  else none

end Watched

/-- States numbered from zero. -/
structure Board (α : Type) where
  states : List (Watched α)

namespace Board

variable {α : Type}

/-- A board of new states. -/
def ofSize (count : Nat) : Board α := { states := List.replicate count {} }

/-- The state with a number; one that is not on the board is new. -/
def get (board : Board α) (i : Nat) : Watched α := board.states.getD i {}

/-- Replaces the state with a number. -/
def set (board : Board α) (i : Nat) (w : Watched α) : Board α :=
  { states := board.states.set i w }

/-- Settles a state. -/
def settle (board : Board α) (i : Nat) (outcome : TaskOutcome α) :
    Except StateError Unit × Board α :=
  let w := board.get i
  let (result, state) := w.state.settle outcome
  (result, board.set i { w with state })

/-- Reads a state, if it is settled. -/
def read? (board : Board α) (i : Nat) : Option (Except StateError α × Board α) :=
  let w := board.get i
  if w.state.settled then
    w.state.read?.map fun (reading, state) => (reading, board.set i { w with state })
  else none

/-- Delivers the outcome of a task to a state. -/
def deliver (board : Board α) (i : Nat) (outcome : TaskOutcome α) : Board α × List Event :=
  match board.settle i outcome with
  | (.ok _, board) => (board, [])
  | (.error error, board) => (board, [outcome.dropped error])

/-- Runs a task with one result. -/
def dispatch (board : Board α) (i : Nat) (task : TaskEnd α) : Board α × List Event :=
  board.deliver i task.outcome

/-- Runs a task with two results. A failure reaches both states. -/
def dispatchPair (board : Board α) (i j : Nat) (task : TaskEnd (α × α)) : Board α × List Event :=
  let (board, first) := board.deliver i (task.map (·.1)).outcome
  let (board, second) := board.deliver j (task.map (·.2)).outcome
  (board, first ++ second)

/-- Starts readers of a state. -/
def start (board : Board α) (i count : Nat) : Board α := board.set i ((board.get i).start count)

/-- Waits for the readers of a state, if it is settled. -/
def join? (board : Board α) (i : Nat) : Option (List (Except StateError α) × Board α) :=
  (board.get i).join?.map fun (readings, w) => (readings, board.set i w)

end Board

end Desugar
