/-!
# Events

What the passes did, as records for a log. A pass returns its events; nothing is printed here.
-/

namespace Desugar

/-- How much a reader of the log has to want to know to see an event. -/
inductive Level where
  | warn
  | debug
  | trace
deriving DecidableEq, Inhabited

/-- The level as it is written in a log. -/
def Level.label : Level → String
  | .warn => "WARN"
  | .debug => "DEBUG"
  | .trace => "TRACE"

/-- The stages of lowering that are reported when they are done. -/
inductive Stage where
  | propagation
  | dispatch
  | expansion
deriving DecidableEq

/-- What is reported of a finished stage. -/
def Stage.report : Stage → String
  | .propagation => "error propagation done"
  | .dispatch => "go-bindings lowered"
  | .expansion => "interpolation expanded"

/-- Something a pass did. -/
inductive Event where
  /-- Lowering of a unit began. -/
  | started (unit : String)
  /-- The types of a unit are lowered and its signatures known. -/
  | typed (unit : String) (signatures : Nat)
  /-- A later stage is done. -/
  | finished (unit : String) (stage : Stage)
  /-- A signature was recorded. -/
  | signature (key : String) (slots : Nat) (isResult : Bool)
  /-- An operand was evaluated into a temporary ahead of a hoisted `try`. -/
  | spilled (name : String)
  /-- The right operand of a short-circuit operator was moved behind a condition. -/
  | guarded (name : String)
  /-- A `try` was hoisted; `name` holds its error. -/
  | hoisted (callee name : String)
  /-- A go-binding was replaced by a dispatched task. -/
  | dispatched (callee : String) (states : Nat)
  /-- The go-bindings of a function are done. -/
  | bindings (function : String) (count : Nat)
  /-- A task had a result for a state that was already settled. -/
  | droppedResult (reason : String)
  /-- A task failed after its state was already settled. -/
  | droppedFailure (reason : String)
deriving DecidableEq

namespace Event

/-- The level of an event. -/
def level : Event → Level
  | started _ | typed _ _ | finished _ _ | bindings _ _ => .debug
  | signature _ _ _ | spilled _ | guarded _ | hoisted _ _ | dispatched _ _ => .trace
  | droppedResult _ | droppedFailure _ => .warn

/-- The event in words. -/
def message : Event → String
  | started unit => s!"lowering unit `{unit}`"
  | typed unit signatures => s!"unit `{unit}`: type lowering done, {signatures} signatures"
  | finished unit stage => s!"unit `{unit}`: {stage.report}"
  | signature key slots isResult =>
    let result := if isResult then "true" else "false"
    s!"signature `{key}`: {slots} value slot(s), result: {result}"
  | spilled name => s!"spilled operand into `{name}` ahead of a hoisted `try`"
  | guarded name => s!"guarded `try` behind `{name}`"
  | hoisted callee name => s!"hoisted `try {callee}` into `{name}`"
  | dispatched callee states => s!"dispatched `{callee}` for {states} sync state(s)"
  | bindings function count => s!"`{function}`: lowered {count} go-binding(s)"
  | droppedResult reason => s!"dropping task result: {reason}"
  | droppedFailure reason => s!"dropping task failure: {reason}"

/-- The line that a log holds for an event. -/
def line (e : Event) : String := e.level.label ++ " " ++ e.message

/-- The event is a dispatch of a task. -/
def isDispatch : Event → Bool
  | dispatched _ _ => true
  | _ => false

end Event

end Desugar
