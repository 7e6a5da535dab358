import Desugar.Task.Board
import Desugar.Proofs.Task.Delivery

/-!
# A task with two results

The thread of such a task waits for the task to end and then delivers its outcome, first to the one
state and after that to the other. Readers of both states come between its steps as they like, so
that one state can be settled and read before the other.

- `Dispatched` is the thread of the task, the two states and their readers, and `Dispatched.run` a
  schedule of all of them.
- `Dispatched.Serves`: what a turn does, it does to one of the states only, as a turn of the threads
  of that state. So the facts on a single delivery hold of both.
- `Dispatched.Serves.pending_run`: the thread of the task needs five turns, whatever the readers do.
- `Dispatched.run_settles_both` collects what the readers of both states rely on.
- `Board.dispatchPair_eq_run`: a thread that is not disturbed does what `Board.dispatchPair` does.
-/

namespace Desugar

/-- A task with two results, the states that it settles, and their readers. -/
structure Dispatched (α β : Type) where
  /-- The task has come to its end. -/
  ended : Bool
  /-- The first state. The delivery to it is thread 0, and all others are readers. -/
  first : Threads α
  /-- The second state, in the same way. -/
  second : Threads β

namespace Dispatched

variable {α β : Type}

/-- Whose turn it is: the thread of the task or a reader of one of the states. -/
inductive Turn where
  | task
  | first (reader : Nat)
  | second (reader : Nat)
deriving DecidableEq

/-- A task that is about to start, with two new states and readers of both. -/
def start (task : TaskEnd (α × β)) (firstReaders secondReaders : Nat) : Dispatched α β where
  ended := false
  first := .deliver (task.map (·.1)).outcome firstReaders
  second := .deliver (task.map (·.2)).outcome secondReaders

/-- A step of the thread of the task: it runs the task, then goes through the first delivery, and
begins the second one when the first is done. -/
def advance (c : Dispatched α β) : Dispatched α β :=
  if c.ended = false then { c with ended := true }
  else if c.first.pending = 0 then { c with second := c.second.turn 0 }
  else { c with first := c.first.turn 0 }

/-- One turn. -/
def turn (c : Dispatched α β) : Turn → Dispatched α β
  | .task => c.advance
  | .first reader => { c with first := c.first.turn (reader + 1) }
  | .second reader => { c with second := c.second.turn (reader + 1) }

/-- The turns of a schedule, one after another. -/
def run (c : Dispatched α β) (schedule : List Turn) : Dispatched α β := schedule.foldl turn c

/-- How many steps the thread of the task has yet to make; it is finished when there are none. -/
def pending (c : Dispatched α β) : Nat :=
  (if c.ended then 0 else 1) + c.first.pending + c.second.pending

/-! ## Both states are served -/

/-- Both states are in a configuration that a single delivery to them can reach. -/
structure Serves (task : TaskEnd (α × β)) (m n : Nat) (c : Dispatched α β) : Prop where
  first : Served (task.map (·.1)).outcome m c.first
  second : Served (task.map (·.2)).outcome n c.second

variable {task : TaskEnd (α × β)} {m n : Nat} {c : Dispatched α β}

/-- Two new states serve the task and their readers. -/
theorem serves_start (task : TaskEnd (α × β)) (m n : Nat) : Serves task m n (start task m n) :=
  ⟨.start _ _, .start _ _⟩

/-- A step of the task is a turn of the writer of one state, or of none, so both states stay served.
-/
theorem Serves.advance (h : Serves task m n c) : Serves task m n c.advance := by
  unfold Dispatched.advance
  split
  · exact ⟨h.first, h.second⟩
  · split
    · exact ⟨h.first, h.second.turn 0⟩
    · exact ⟨h.first.turn 0, h.second⟩

/-- Whoever has the turn, both states stay served. -/
theorem Serves.turn (h : Serves task m n c) (t : Turn) : Serves task m n (c.turn t) := by
  cases t with
  | task => exact h.advance
  | first reader => exact ⟨h.first.turn (reader + 1), h.second⟩
  | second reader => exact ⟨h.first, h.second.turn (reader + 1)⟩

/-- A schedule leads both states to configurations that a single delivery can reach. -/
theorem Serves.run (h : Serves task m n c) (schedule : List Turn) :
    Serves task m n (c.run schedule) := by
  induction schedule generalizing c with
  | nil => exact h
  | cons t rest ih => exact ih (h.turn t)

/-! ## The thread of the task goes on -/

/-- Every step of the task brings it nearer to its end. -/
theorem Serves.pending_advance (h : Serves task m n c) : c.advance.pending = c.pending - 1 := by
  unfold Dispatched.advance
  cases hended : c.ended with
  | false =>
    simp only [pending, hended, Bool.false_eq_true, if_false, if_true]
    omega
  | true =>
    by_cases hfirst : c.first.pending = 0
    · simp only [pending, hended, hfirst, h.second.pending_turn_writer, Bool.true_eq_false,
        if_false, if_true]
      omega
    · simp only [pending, hended, hfirst, h.first.pending_turn_writer, Bool.true_eq_false, if_false,
        if_true]
      omega

/-- Every turn of the thread of the task is a step, and no other turn is. -/
theorem Serves.pending_turn (h : Serves task m n c) (t : Turn) :
    (c.turn t).pending = c.pending - if t = .task then 1 else 0 := by
  cases t with
  | task => exact h.pending_advance
  | first reader =>
    show (if c.ended then 0 else 1) + (c.first.turn (reader + 1)).pending + c.second.pending = _
    rw [Threads.pending_turn_reader]
    rfl
  | second reader =>
    show (if c.ended then 0 else 1) + c.first.pending + (c.second.turn (reader + 1)).pending = _
    rw [Threads.pending_turn_reader]
    rfl

/-- How much is left for the task depends on how often it had its turn, and on nothing else. -/
theorem Serves.pending_run (h : Serves task m n c) (schedule : List Turn) :
    (c.run schedule).pending = c.pending - schedule.count .task := by
  induction schedule generalizing c with
  | nil => rfl
  | cons t rest ih =>
    show ((c.turn t).run rest).pending = _
    rw [ih (h.turn t), h.pending_turn t, List.count_cons, Nat.sub_sub, Nat.add_comm]
    simp only [beq_iff_eq]

/-- **Both states are settled, consistently.** A task is dispatched on two new states, and its
thread takes turns with any number of readers of either state, in any order. Whoever reads more than
once is more than one reader here, as no order is imposed on them.

1. If the task returns two values, then all readers that are done have read the one that belongs to
   their state.
2. If it fails, then all of them have been given its failure, whichever state they read.
3. Five turns of its thread are enough to finish it, and nothing that readers do prevents this.
4. When it is finished, both states are settled for good, and no reader waits in vain. -/
theorem run_settles_both (task : TaskEnd (α × β)) (m n : Nat) (schedule : List Turn) :
    let c := (start task m n).run schedule
    (∀ a b, task = .returned (a, b) →
      (∀ i r, c.first.At i (.read r) → r = .ok a) ∧
      (∀ i r, c.second.At i (.read r) → r = .ok b)) ∧
    (∀ message, task = .failed message →
      (∀ i r, c.first.At i (.read r) → r = .error (.failed (message.getD "task panicked"))) ∧
      (∀ i r, c.second.At i (.read r) → r = .error (.failed (message.getD "task panicked")))) ∧
    c.pending = 5 - schedule.count .task ∧
    (c.pending = 0 → Fulfilled (task.map (·.1)).outcome m c.first ∧
      Fulfilled (task.map (·.2)).outcome n c.second) := by
  intro c
  have h : Serves task m n c := (serves_start task m n).run schedule
  refine ⟨?_, ?_, (serves_start task m n).pending_run schedule, fun hdone => ?_⟩
  · rintro a b rfl
    exact ⟨fun i r hi => h.first.eq_reading hi, fun i r hi => h.second.eq_reading hi⟩
  · rintro message rfl
    exact ⟨fun i r hi => h.first.eq_reading hi, fun i r hi => h.second.eq_reading hi⟩
  · unfold pending at hdone
    exact ⟨h.first.fulfilled (by omega), h.second.fulfilled (by omega)⟩

/-- A reader of the second state is behind the gate while the first state is settled and read. -/
example :
    let c := (start (.returned (7, "seven")) 1 1).run
      [.second 0, .task, .task, .task, .first 0, .task, .first 0, .task, .second 0]
    c.first.threads = [.wrote (.value 7) (.ok ()), .read (.ok 7)] ∧
      c.second.threads = [.wrote (.value "seven") (.ok ()), .read (.ok "seven")] := by
  exact ⟨rfl, rfl⟩

end Dispatched

/-! ## Threads that are not disturbed -/

/-- A state and its only writer after the delivery of an outcome. -/
def Threads.delivered {α : Type} (o : TaskOutcome α) : Threads α where
  state := { settled := true, channel := some o }
  threads := [.wrote o (.ok ())]

namespace Dispatched

variable {α β : Type} {first : Threads α} {second : Threads β}

/-- The first delivery goes on until it is done. -/
theorem advance_first (h : first.pending ≠ 0) :
    advance ⟨true, first, second⟩ = ⟨true, first.turn 0, second⟩ := if_neg h

/-- The second delivery goes on when the first is done. -/
theorem advance_second (h : first.pending = 0) :
    advance ⟨true, first, second⟩ = ⟨true, first, second.turn 0⟩ := if_pos h

/-- Without readers, both outcomes are in their channels after five turns. -/
theorem run_undisturbed (task : TaskEnd (α × β)) :
    (start task 0 0).run (List.replicate 5 .task) =
      ⟨true, .delivered (task.map (·.1)).outcome, .delivered (task.map (·.2)).outcome⟩ := by
  have hstart : (start task 0 0).advance =
      ⟨true, .deliver (task.map (·.1)).outcome 0, .deliver (task.map (·.2)).outcome 0⟩ := rfl
  have hnew (o : TaskOutcome α) : (Threads.deliver o 0).pending ≠ 0 := by
    show 2 ≠ 0
    decide
  have hclaimed (o : TaskOutcome α) : ((Threads.deliver o 0).turn 0).pending ≠ 0 := by
    show 1 ≠ 0
    decide
  simp only [run, List.replicate, List.foldl_cons, List.foldl_nil, turn]
  rw [hstart, advance_first (hnew _), advance_first (hclaimed _), advance_second rfl,
    advance_second rfl]
  rfl

end Dispatched

namespace Board

variable {α : Type} {board : Board α} {i j : Nat}

/-- A state that is set is found at its place. -/
theorem get_set_self (hi : i < board.states.length) (w : Watched α) :
    (board.set i w).get i = w := by
  simp [get, set, List.getD_eq_getElem?_getD, List.getElem?_set_self hi]

/-- The other states stay. -/
theorem get_set_other (hij : i ≠ j) (w : Watched α) : (board.set i w).get j = board.get j := by
  simp [get, set, List.getD_eq_getElem?_getD, List.getElem?_set_ne hij]

/-- A delivery to a new state settles it and leaves the message in the channel. -/
theorem deliver_new (hnew : (board.get i).state = {}) (o : TaskOutcome α) :
    board.deliver i o =
      (board.set i { board.get i with state := { settled := true, channel := some o } }, []) := by
  have hsettle : board.settle i o = (.ok (),
      board.set i { board.get i with state := { settled := true, channel := some o } }) := by
    simp only [settle, hnew]
    rfl
  rw [deliver, hsettle]

/-- A thread that is not disturbed by readers does with two new states of a board what
`dispatchPair` does, and has nothing to report. -/
theorem dispatchPair_eq_run (task : TaskEnd (α × α)) (hij : i ≠ j)
    (hi : i < board.states.length) (hj : j < board.states.length)
    (hinew : (board.get i).state = {}) (hjnew : (board.get j).state = {}) :
    let c := (Dispatched.start task 0 0).run (List.replicate 5 .task)
    ((board.dispatchPair i j task).1.get i).state = c.first.state ∧
      ((board.dispatchPair i j task).1.get j).state = c.second.state ∧
      (board.dispatchPair i j task).2 = [] := by
  have hjnew' (w : Watched α) : ((board.set i w).get j).state = {} := by
    rw [get_set_other hij, hjnew]
  have hjlength (w : Watched α) : j < (board.set i w).states.length := by
    simpa [set] using hj
  simp only [Dispatched.run_undisturbed, dispatchPair, deliver_new hinew, deliver_new (hjnew' _),
    List.append_nil]
  refine ⟨?_, ?_, trivial⟩
  · rw [get_set_other hij.symm, get_set_self hi]
    rfl
  · rw [get_set_self (hjlength _)]
    rfl

end Board

end Desugar
