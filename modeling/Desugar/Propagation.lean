import Desugar.LocalTypes
import Desugar.Pass
import Desugar.Template.Expand
import Desugar.Tree.Names

/-!
# Error propagation

A function that returns a result `Result<T>` is lowered to one that returns the values of `T` and
an error. `throw e` becomes a return of zero values and `e`. `try f(x)` becomes a capture of all
values of the call ahead of the statement that contains it, followed by an early return if the
captured error is not nil, and is itself replaced by the captured value.

Hoisting must not reorder what the statement does. An operand that runs something and stands
before a hoisted `try` is evaluated into a temporary first (`spill`), and a `try` in the right
operand of `&&` or `||` is hoisted behind a condition, so that it runs only if that operand does.

* `Propagation.lowerExpr` and the functions around it lower the code of one function.
* `propagateErrors` is the pass over a unit.
-/

namespace Desugar

namespace Propagation

/-- What is known while a function is lowered. -/
structure Context extends Scope where
  settings : Settings

/-- The function, or function literal, that `throw` and `try` return from. -/
structure Frame where
  /-- The name in messages. -/
  function : String
  /-- The return clause is a result. -/
  isResult : Bool
  /-- The zero values of its positional values. -/
  zeros : List Expr

namespace Frame

/-- The frame of a function with a given return clause. -/
def ofShape (table : SignatureTable) (function : String) (shape : ReturnShape) : Frame where
  function
  isResult := shape.isResult
  zeros := shape.values.map (Ty.zero table.isStruct)

/-- The number of positional values, without the error. -/
def valueCount (frame : Frame) : Nat := frame.zeros.length

/-- The name of a function literal inside the frame. -/
def literalName (frame : Frame) : String := frame.function ++ " (function literal)"

/-- The return of zero values and an error. -/
def earlyReturn (frame : Frame) (error : Expr) (span : Span) : Stmt :=
  .ret (frame.zeros ++ [error]) span

end Frame

/-- The signature of a call that may fail. -/
def failing? (cx : Context) : Expr → Option Signature
  | .call callee _ _ => (cx.resolve? callee).filter Signature.isResult
  | _ => none

/-- Reports a call that may fail and whose values go nowhere. -/
def checkDiscarded (cx : Context) (e : Expr) : Pass Unit :=
  match failing? cx e with
  | some sig => Pass.report (.discarded sig.name) e.span
  | none => pure ()

/-- Reports a single call that may fail and has fewer targets than values, error included. -/
def checkCapture (cx : Context) (targets : Nat) : List Expr → Pass Unit
  | [value] =>
    match failing? cx value with
    | some sig =>
      if targets < sig.slotCount then Pass.report (.discarded sig.name) value.span else pure ()
    | none => pure ()
  | _ => pure ()

/-- Evaluates an operand into a temporary, unless evaluating it runs nothing. -/
def spill (e : Expr) : Pass Expr :=
  if e.isPure then pure e
  else do
    let name ← Pass.fresh "Tmp"
    Pass.record (.spilled name)
    Pass.emit [Stmt.define [name] [e]]
    pure (Expr.name name)

/-- Spills an operand if a `try` that is hoisted later stands after it. -/
def spillBefore (later : Bool) (e : Expr) : Pass Expr := if later then spill e else pure e

/-- Spills the operands of an assignable place, which keeps its form. -/
def pin : Expr → Pass Expr
  | .index base index span => do
    let base ← spill base
    let index ← spill index
    pure (.index base index span)
  | .selector base field span => do
    let base ← spill base
    pure (.selector base field span)
  | .unary .deref operand span => do
    let operand ← spill operand
    pure (.unary .deref operand span)
  | e => pure e

/-- A `try` together with the computation that lowers its operand. -/
structure Attempt where
  operand : Expr
  span : Span
  lowered : Pass Expr

/-- Hoists a `try`: captures the values of the call and its error, and returns early if there is
one. The values are references to the captured names; they are captured into blanks, and there
are none, unless they are to be kept. A `try` that is not allowed is reported and gives nothing. -/
def hoist (cx : Context) (frame : Frame) (keep : Bool) (attempt : Attempt) :
    Pass (Option (List Expr)) :=
  if !frame.isResult then do
    Pass.report (.attemptOutsideResult frame.function) attempt.span
    pure none
  else
    match attempt.operand with
    | .call callee _ _ =>
      match cx.resolve? callee with
      | some sig =>
        if sig.isResult then do
          let call ← attempt.lowered
          let values ← Pass.freshList (if keep then sig.values.map fun _ => "Val" else [])
          let error ← Pass.fresh "Err"
          let targets := if keep then values else sig.values.map fun _ => "_"
          Pass.emit
            [Stmt.define (targets ++ [error]) [call],
              Stmt.onlyIf (Expr.isNotNil error)
                [frame.earlyReturn (Expr.name error) attempt.span]]
          Pass.record (.hoisted sig.name error)
          pure (some (values.map Expr.name))
        else do
          Pass.report (.attemptOfPlain sig.name) attempt.span
          pure none
      | none => do
        Pass.report .attemptOfUnknown attempt.span
        pure none
    | _ => do
      Pass.report .attemptOfNonCall attempt.span
      pure none

/-- The value of a `try` where a single value is needed. -/
def attemptValue (cx : Context) (frame : Frame) (attempt : Attempt) : Pass Expr := do
  match ← hoist cx frame true attempt with
  | some [value] => pure value
  | some values => do
    Pass.report (.attemptAsValue values.length) attempt.span
    pure Expr.nil
  | none => pure Expr.nil

/-- The values of a `try` that is given to several targets. -/
def attemptValues (cx : Context) (frame : Frame) (expected : Nat) (attempt : Attempt) :
    Pass (List Expr) := do
  match ← hoist cx frame true attempt with
  | some values => do
    if values.length = expected then pure ()
    else Pass.report (.attemptArity values.length expected) attempt.span
    pure values
  | none => pure []

/-- The values given to `targets` targets: those of a single `try`, or one value each. -/
def assigned (cx : Context) (frame : Frame) (targets : Nat) (values : List Expr)
    (sole : Option Attempt) (ordered : Pass (List Expr)) : Pass (List Expr) :=
  match sole with
  | some attempt =>
    if 1 < targets then attemptValues cx frame targets attempt else ordered
  | none => do
    checkCapture cx targets values
    ordered

/-- The values are a single call that may fail and has the values of the frame. -/
def forwards (cx : Context) (frame : Frame) : List Expr → Bool
  | [value] =>
    match failing? cx value with
    | some sig => sig.values.length == frame.valueCount
    | none => false
  | _ => false

/-- The values of a return statement in a frame that returns a result. An error is added if it
is missing. -/
def returned (cx : Context) (frame : Frame) (values : List Expr) (span : Span)
    (sole : Option Attempt) (ordered : Pass (List Expr)) : Pass (List Expr) :=
  match sole with
  | some attempt => do
    let values ← attemptValues cx frame frame.valueCount attempt
    pure (values ++ [Expr.nil])
  | none =>
    if forwards cx frame values then ordered
    else if values.length = frame.valueCount then do
      let values ← ordered
      pure (values ++ [Expr.nil])
    else if values.length = frame.valueCount + 1 then ordered
    else do
      Pass.report (.returnArity frame.function frame.valueCount values.length) span
      pure values

/-- The error that the operand of `throw` stands for: a string literal is made an error, a
template is formatted into one, and any other value is the error itself. -/
def errorValue (settings : Settings) : Expr → Pass Expr
  | .lit (.string text) span => do
    Pass.require settings.errorConstructor
    pure (Path.call settings.errorConstructor [.lit (.string text) span])
  | .template segments span =>
    match Template.expand settings.errorFormatFunction segments span with
    | .ok expanded => do
      Pass.require settings.errorFormatFunction
      pure expanded
    | .error fault => do
      Pass.note { faults := [fault] }
      pure Expr.nil
  | e => pure e

/-- Lowers the condition of a loop. It is evaluated again for every iteration, so there is
nowhere to hoist a `try` to. -/
def loopCondition (test : Expr) (lowered : Pass Expr) : Pass Expr :=
  if test.containsAttempt then do
    Pass.report .attemptInLoopCondition test.span
    pure test
  else do
    let (test, _) ← lowered.collect
    pure test

/-- Lowers the call of a `go` or `defer` statement or of a go-binding. -/
def launched (launch : Launch) (call : Expr) (lowered : Pass Expr) : Pass Expr :=
  match call with
  | .attempt _ span => do
    Pass.report (.launchedAttempt launch) span
    pure call
  | _ => lowered

/-- The shape of the return clause of a function literal. -/
def literalShape (cx : Context) (returns : Option Ty) (span : Span) : Pass ReturnShape :=
  match ReturnShape.ofClause cx.settings.optionPolicy returns with
  | .ok shape => pure shape
  | .error cause => do
    Pass.report cause span
    pure {}

mutual
/-- Lowers an expression; what has to run before it is emitted. -/
def lowerExpr (cx : Context) (frame : Frame) (e : Expr) : Pass Expr :=
  match e with
  | .ident name span => pure (.ident name span)
  | .lit value span => pure (.lit value span)
  | .ofType ty span => pure (.ofType ty span)
  | .attempt operand span =>
    attemptValue cx frame { operand, span, lowered := lowerExpr cx frame operand }
  | .binary op left right span =>
    if op.isShortCircuit && right.containsAttempt then do
      let left ← lowerExpr cx frame left
      let name ← Pass.fresh "Cond"
      Pass.emit [Stmt.define [name] [left]]
      let (right, guarded) ← (lowerExpr cx frame right).collect
      Pass.record (.guarded name)
      let guard := match op with
        | .or => .unary .not (Expr.name name) .nowhere
        | _ => Expr.name name
      Pass.emit [Stmt.onlyIf guard (guarded ++ [Stmt.store name right])]
      pure (Expr.name name)
    else do
      let left ← lowerExpr cx frame left
      let left ← spillBefore right.containsAttempt left
      let right ← lowerExpr cx frame right
      pure (.binary op left right span)
  | .call callee args span => do
    let callee ← lowerExpr cx frame callee
    let callee ← spillBefore (args.any Expr.containsAttempt) callee
    let args ← lowerOrdered cx frame args
    pure (.call callee args span)
  | .unary op operand span => do
    let operand ← lowerExpr cx frame operand
    pure (.unary op operand span)
  | .selector base field span => do
    let base ← lowerExpr cx frame base
    pure (.selector base field span)
  | .index base index span => do
    let base ← lowerExpr cx frame base
    let base ← spillBefore index.containsAttempt base
    let index ← lowerExpr cx frame index
    pure (.index base index span)
  | .composite ty elements span => do
    let elements ← lowerElements cx frame elements
    pure (.composite ty elements span)
  | .template segments span => do
    let segments ← lowerSegments cx frame segments
    pure (.template segments span)
  | .func params returns body span => do
    let shape ← literalShape cx returns span
    let body ← lowerBlock cx (.ofShape cx.table frame.literalName shape) body
    pure (.func params shape.clause body span)
termination_by structural e

/-- Lowers sibling operands from left to right. One that runs something is spilled if a `try`
stands after it. -/
def lowerOrdered (cx : Context) (frame : Frame) (es : List Expr) : Pass (List Expr) :=
  match es with
  | [] => pure []
  | e :: rest => do
    let e ← lowerExpr cx frame e
    let e ← spillBefore (rest.any Expr.containsAttempt) e
    let rest ← lowerOrdered cx frame rest
    pure (e :: rest)
termination_by structural es

/-- Lowers the targets of an assignment. Their operands are spilled if a value contains a
`try`. -/
def lowerTargets (cx : Context) (frame : Frame) (spilling : Bool) (es : List Expr) :
    Pass (List Expr) :=
  match es with
  | [] => pure []
  | e :: rest => do
    let e ← lowerExpr cx frame e
    let e ← if spilling then pin e else pure e
    let rest ← lowerTargets cx frame spilling rest
    pure (e :: rest)
termination_by structural es

/-- The `try` that a list of values consists of. -/
def soleAttempt (cx : Context) (frame : Frame) (es : List Expr) : Option Attempt :=
  match es with
  | [.attempt operand span] => some { operand, span, lowered := lowerExpr cx frame operand }
  | _ => none
termination_by structural es

/-- Lowers the keys and values of a composite literal as sibling operands. -/
def lowerElements (cx : Context) (frame : Frame) (elements : List Element) :
    Pass (List Element) :=
  match elements with
  | [] => pure []
  | ⟨none, value⟩ :: rest => do
    let later := rest.any Element.containsAttempt
    let value ← lowerExpr cx frame value
    let value ← spillBefore later value
    let rest ← lowerElements cx frame rest
    pure (⟨none, value⟩ :: rest)
  | ⟨some key, value⟩ :: rest => do
    let later := rest.any Element.containsAttempt
    let key ← lowerExpr cx frame key
    let key ← spillBefore (value.containsAttempt || later) key
    let value ← lowerExpr cx frame value
    let value ← spillBefore later value
    let rest ← lowerElements cx frame rest
    pure (⟨some key, value⟩ :: rest)
termination_by structural elements

/-- Lowers the embeds of a template as sibling operands. -/
def lowerSegments (cx : Context) (frame : Frame) (segments : List Segment) :
    Pass (List Segment) :=
  match segments with
  | [] => pure []
  | .text value :: rest => do
    let rest ← lowerSegments cx frame rest
    pure (.text value :: rest)
  | .embed value verb span :: rest => do
    let value ← lowerExpr cx frame value
    let value ← spillBefore (rest.any Segment.containsAttempt) value
    let rest ← lowerSegments cx frame rest
    pure (.embed value verb span :: rest)
termination_by structural segments

/-- Lowers a block. -/
def lowerBlock (cx : Context) (frame : Frame) (block : Block) : Pass Block :=
  match block with
  | ⟨stmts, span⟩ => do
    let (_, stmts) ← (lowerStmts cx frame stmts).collect
    pure ⟨stmts, span⟩
termination_by structural block

/-- Lowers a list of statements. -/
def lowerStmts (cx : Context) (frame : Frame) (stmts : List Stmt) : Pass Unit :=
  match stmts with
  | [] => pure ()
  | stmt :: rest => do
    lowerStmt cx frame stmt
    lowerStmts cx frame rest
termination_by structural stmts

/-- Lowers a statement: emits the statements that take its place. -/
def lowerStmt (cx : Context) (frame : Frame) (stmt : Stmt) : Pass Unit :=
  match stmt with
  | .expr (.attempt operand span) => do
    let _ ← hoist cx frame false { operand, span, lowered := lowerExpr cx frame operand }
    pure ()
  | .expr value => do
    checkDiscarded cx value
    let value ← lowerExpr cx frame value
    Pass.emit [.expr value]
  | .assign targets op values span => do
    let targets ← lowerTargets cx frame (values.any Expr.containsAttempt) targets
    let values ← assigned cx frame targets.length values (soleAttempt cx frame values)
      (lowerOrdered cx frame values)
    Pass.emit [.assign targets op values span]
  | .var names ty values span => do
    let values ← assigned cx frame names.length values (soleAttempt cx frame values)
      (lowerOrdered cx frame values)
    Pass.emit [.var names ty values span]
  | .ret values span => do
    let values ←
      if frame.isResult then
        returned cx frame values span (soleAttempt cx frame values) (lowerOrdered cx frame values)
      else lowerOrdered cx frame values
    Pass.emit [.ret values span]
  | .throw value span =>
    if frame.isResult then do
      let value ← lowerExpr cx frame value
      let error ← errorValue cx.settings value
      Pass.emit [frame.earlyReturn error span]
    else Pass.report (.throwOutsideResult frame.function) span
  | .cond branch => do
    let branch ← lowerIf cx frame branch
    Pass.emit [.cond branch]
  | .loop clause body span => do
    let (lowered, before) ← (lowerClause cx frame clause).collect
    let body ← lowerBlock cx frame body
    let loop := .loop lowered body span
    -- Names of the first statement stay scoped to the loop.
    if clause.isThree && !before.isEmpty then
      Pass.emit [.block (.inserted (before ++ [loop]))]
    else Pass.emit (before ++ [loop])
  | .bind names call span => do
    let call ← launched .go call (lowerExpr cx frame call)
    Pass.emit [.bind names call span]
  | .go call span => do
    checkDiscarded cx call
    let call ← launched .go call (lowerExpr cx frame call)
    Pass.emit [.go call span]
  | .defer call span => do
    checkDiscarded cx call
    let call ← launched .defer call (lowerExpr cx frame call)
    Pass.emit [.defer call span]
  | .block body => do
    let body ← lowerBlock cx frame body
    Pass.emit [.block body]
  | .breakLoop span => Pass.emit [.breakLoop span]
  | .continueLoop span => Pass.emit [.continueLoop span]
termination_by structural stmt

/-- Lowers a conditional; what its condition needs is emitted. -/
def lowerIf (cx : Context) (frame : Frame) (branch : If) : Pass If :=
  match branch with
  | ⟨condition, thenBlock, otherwise, span⟩ => do
    let condition ← lowerExpr cx frame condition
    let thenBlock ← lowerBlock cx frame thenBlock
    let otherwise ← lowerElse cx frame otherwise
    pure ⟨condition, thenBlock, otherwise, span⟩
termination_by structural branch

/-- Lowers what follows a failed condition. What the condition of an `else if` needs must only
run when that branch is reached, so such a branch becomes a block of its own. -/
def lowerElse (cx : Context) (frame : Frame) (otherwise : Else) : Pass Else :=
  match otherwise with
  | .none => pure .none
  | .block body => do
    let body ← lowerBlock cx frame body
    pure (.block body)
  | .elseIf branch => do
    let (branch, before) ← (lowerIf cx frame branch).collect
    if before.isEmpty then pure (.elseIf branch)
    else pure (.block (.inserted (before ++ [.cond branch])))
termination_by structural otherwise

/-- Lowers the header of a loop; what has to run before the loop is emitted. -/
def lowerClause (cx : Context) (frame : Frame) (clause : Clause) : Pass Clause :=
  match clause with
  | .infinite => pure .infinite
  | .condition test => do
    let test ← loopCondition test (lowerExpr cx frame test)
    pure (.condition test)
  | .three first condition post => do
    let first ← lowerFirst cx frame first
    let condition ← lowerCondition cx frame condition
    let post ← lowerPost cx frame post
    pure (.three first condition post)
  | .range key value define source => do
    let source ← lowerExpr cx frame source
    pure (.range key value define source)
termination_by structural clause

/-- Lowers the first statement of a loop header. The last statement that takes its place stays
in the header, and those before it are emitted. -/
def lowerFirst (cx : Context) (frame : Frame) (first : Option Stmt) : Pass (Option Stmt) :=
  match first with
  | none => pure none
  | some stmt => do
    let (_, code) ← (lowerStmt cx frame stmt).collect
    Pass.emit code.dropLast
    pure code.getLast?
termination_by structural first

/-- Lowers the condition of a three-part loop header. -/
def lowerCondition (cx : Context) (frame : Frame) (condition : Option Expr) :
    Pass (Option Expr) :=
  match condition with
  | none => pure none
  | some test => do
    let test ← loopCondition test (lowerExpr cx frame test)
    pure (some test)
termination_by structural condition

/-- Lowers the post statement of a loop header, which runs after every iteration. -/
def lowerPost (cx : Context) (frame : Frame) (post : Option Stmt) : Pass (Option Stmt) :=
  match post with
  | none => pure none
  | some stmt =>
    if stmt.containsAttempt then do
      Pass.report .attemptInLoopPost stmt.span
      pure (some stmt)
    else do
      let (_, code) ← (lowerStmt cx frame stmt).collect
      pure code.getLast?
termination_by structural post
end

/-- Lowers a function with a given signature. -/
def lowerFunction (table : SignatureTable) (settings : Settings) (f : Function) (sig : Signature) :
    Noted Function := do
  let cx : Context := { Scope.ofFunction table f with settings }
  let frame : Frame := .ofShape table f.name sig.returns
  let body ← (lowerBlock cx frame f.body).runWith (.avoiding settings.stem f.names)
  pure { f with returns := sig.clause, body }

/-- Lowers an item. A function without a signature is left alone. -/
def lowerItem (table : SignatureTable) (settings : Settings) (item : Item) : Noted Item :=
  match item with
  | .func f =>
    match table.get? f.key with
    | some sig => do
      let f ← lowerFunction table settings f sig
      pure (.func f)
    | none => pure item
  | .const c =>
    if c.value.containsAttempt then do
      Noted.report [⟨.attemptInConstant c.name, c.value.span⟩]
      pure item
    else pure item
  | _ => pure item

end Propagation

/-- Lowers `try`, `throw` and the returns of functions with a result in a unit. -/
def propagateErrors (table : SignatureTable) (settings : Settings) (program : Program) :
    Noted Program := do
  let items ← program.items.mapM (Propagation.lowerItem table settings)
  pure { program with items }

end Desugar
