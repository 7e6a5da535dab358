import Desugar.LocalTypes
import Desugar.Pass
import Desugar.Tree.Bindings
import Desugar.Tree.Names

/-!
# Go-bindings

A go-binding `a, b := go f(x)` runs the call concurrently. It is lowered to one state per bound
name, the capture of the callee and of the arguments, and a task that calls the function and
delivers each of its results to the state of its name, or the failure of the call to all of them.
A receive `<-a` in the scope of the binding becomes the read `a.get()` of its state.

* `Dispatch.dispatch` replaces one go-binding.
* `Dispatch.redirectExpr` and the functions around it follow the scopes of bound names.
* `dispatchTasks` is the pass over a unit, which also adds the support code that states need.
-/

namespace Desugar

namespace Dispatch

/-- What is known while a function is lowered. -/
structure Context extends Scope where
  settings : Settings

/-- The names that stand for states of go-bindings at a place. -/
abbrev Bound := List String

/-- The bound names after a declaration of other names. -/
def Bound.hide (bound : Bound) (names : List String) : Bound :=
  bound.filter fun name => !names.contains name

/-- An argument that gives the same value whenever it is evaluated. -/
def isConstant : Expr → Bool
  | .lit _ _ | .ofType _ _ => true
  | _ => false

/-- The bound name that an expression receives from. -/
def boundReceive? (bound : Bound) : Expr → Option String
  | .unary .receive (.ident name _) _ => if bound.contains name then some name else none
  | _ => none

/-- A receive, which from a bound name is a read of its state. -/
def receive (bound : Bound) (operand : Expr) (span : Span) : Expr :=
  match boundReceive? bound (.unary .receive operand span) with
  | some _ => .call (operand.member "get") [] span
  | none => .unary .receive operand span

/-- Reports a receive from a bound name that asks whether there was a value. -/
def rejectCommaOk (bound : Bound) (targets : Nat) : List Expr → Pass Unit
  | [value] =>
    match targets, boundReceive? bound value with
    | 2, some name => Pass.report (.commaOk name) value.span
    | _, _ => pure ()
  | _ => pure ()

/-- Evaluates an expression into a temporary. -/
def capture (e : Expr) : Pass Expr := do
  let name ← Pass.fresh "Arg"
  Pass.emit [Stmt.define [name] [e]]
  pure (Expr.name name)

/-- Captures a callee that has to be evaluated: a method with its receiver. -/
def captureCallee (callee : Expr) : Pass Expr :=
  match callee with
  | .selector _ _ _ => capture callee
  | _ => pure callee

/-- Captures the arguments that are not constant, from left to right. -/
def captureArgs : List Expr → Pass (List Expr)
  | [] => pure []
  | arg :: rest => do
    let arg ← if isConstant arg then pure arg else capture arg
    let rest ← captureArgs rest
    pure (arg :: rest)

/-- The definition of the state of a bound name. -/
def stateOf (settings : Settings) (name : String) (ty : Ty) : Stmt :=
  let constructor := .index (Expr.name (settings.hidden "NewSync")) (.ofType ty .nowhere) .nowhere
  Stmt.define [name] [Expr.apply constructor []]

/-- The deferred recovery of a task: the recovered failure goes to every state. -/
def recovery (states : List String) (failure : String) (span : Span) : Stmt :=
  let failures := states.map fun state => .expr (Expr.method state "fail" [Expr.name failure])
  let body :=
    [Stmt.define [failure] [(Expr.name "recover").apply []],
      Stmt.onlyIf (Expr.isNotNil failure) failures]
  .defer (Expr.apply (.func [] none (.inserted body) span) []) span

/-- One made-up name for each bound name that is not blank, and a blank for the others. -/
def resultNames : List Ident → Pass (List String)
  | [] => pure []
  | name :: rest => do
    let result ← if name.isBlank then pure "_" else Pass.fresh "Val"
    let rest ← resultNames rest
    pure (result :: rest)

/-- The deliveries of the results to the states of the names that are not blank. -/
def deliveries (names : List Ident) (results : List String) : List Stmt :=
  (names.zip results).filterMap fun (name, result) =>
    if name.isBlank then none else some (.expr (Expr.method name.name "put" [Expr.name result]))

/-- The body of the task that runs a call for the given names. -/
def taskBody (names : List Ident) (states : List String) (call : Expr) (span : Span) :
    Pass (List Stmt) :=
  if states.isEmpty then pure [.expr call]
  else do
    let failure ← Pass.fresh "Fail"
    let results ← resultNames names
    pure (recovery states failure span :: Stmt.define results [call] :: deliveries names results)

/-- The names that are bound to a state. -/
def stateNames (names : List Ident) : List String :=
  (names.filter fun name => !name.isBlank).map (·.name)

/-- Replaces a go-binding of a call with a known signature. Callee and arguments are evaluated
before the task is started. -/
def dispatchCall (cx : Context) (names : List Ident) (sig : Signature) (callee : Expr)
    (args : List Expr) (callSpan span : Span) : Pass Unit := do
  let states := stateNames names
  Pass.emit ((names.zip sig.slots).filterMap fun (name, ty) =>
    if name.isBlank then none else some (stateOf cx.settings name.name ty))
  let callee ← captureCallee callee
  let args ← captureArgs args
  let body ← taskBody names states (.call callee args callSpan) span
  Pass.emit [.go (Expr.apply (.func [] none (.inserted body) span) []) span]
  Pass.record (.dispatched sig.name states.length)

/-- Replaces a go-binding, or reports why it cannot be. -/
def dispatch (cx : Context) (names : List Ident) (call : Expr) (span : Span) : Pass Unit :=
  match call with
  | .call callee args callSpan =>
    match cx.resolve? callee with
    | some sig =>
      if names.length ≠ sig.slots.length then
        Pass.report (.bindingArity sig.name sig.slots.length names.length) span
      else if sig.isResult && names.all Ident.isBlank then
        Pass.report (.discarded sig.name) callSpan
      else dispatchCall cx names sig callee args callSpan span
    | none => Pass.report .bindingOfUnknown callee.span
  | _ => Pass.report .bindingOfNonCall span

/-- Redirects the receives of an expression of a statement. Where no name is bound and no function
literal binds one, the expression is left as it is. -/
def read (bound : Bound) (e : Expr) (redirected : Pass Expr) : Pass Expr :=
  if bound.isEmpty && !e.hasBinding then pure e else redirected

mutual
/-- Redirects the receives of an expression from bound names to their states. -/
def redirectExpr (cx : Context) (bound : Bound) (e : Expr) : Pass Expr :=
  match e with
  | .ident name span => pure (.ident name span)
  | .lit value span => pure (.lit value span)
  | .ofType ty span => pure (.ofType ty span)
  | .call callee args span => do
    let callee ← redirectExpr cx bound callee
    let args ← redirectExprs cx bound args
    pure (.call callee args span)
  | .template segments span => do
    let segments ← redirectSegments cx bound segments
    pure (.template segments span)
  | .attempt operand span => do
    let operand ← redirectExpr cx bound operand
    pure (.attempt operand span)
  | .binary op left right span => do
    let left ← redirectExpr cx bound left
    let right ← redirectExpr cx bound right
    pure (.binary op left right span)
  | .unary op operand span => do
    let operand ← redirectExpr cx bound operand
    match op with
    | .receive => pure (receive bound operand span)
    | _ => pure (.unary op operand span)
  | .selector base field span => do
    let base ← redirectExpr cx bound base
    pure (.selector base field span)
  | .index base index span => do
    let base ← redirectExpr cx bound base
    let index ← redirectExpr cx bound index
    pure (.index base index span)
  | .composite ty elements span => do
    let elements ← redirectElements cx bound elements
    pure (.composite ty elements span)
  | .func params returns body span => do
    let body ← redirectBlock cx (bound.hide (params.map (·.name))) body
    pure (.func params returns body span)
termination_by structural e

/-- Redirects the receives of a list of expressions. -/
def redirectExprs (cx : Context) (bound : Bound) (es : List Expr) : Pass (List Expr) :=
  match es with
  | [] => pure []
  | e :: rest => do
    let e ← redirectExpr cx bound e
    let rest ← redirectExprs cx bound rest
    pure (e :: rest)
termination_by structural es

/-- Redirects the receives of an optional expression. -/
def redirectExpr? (cx : Context) (bound : Bound) (e : Option Expr) : Pass (Option Expr) :=
  match e with
  | none => pure none
  | some e => do
    let e ← redirectExpr cx bound e
    pure (some e)
termination_by structural e

/-- Redirects the receives of a template. -/
def redirectSegments (cx : Context) (bound : Bound) (segments : List Segment) :
    Pass (List Segment) :=
  match segments with
  | [] => pure []
  | .text value :: rest => do
    let rest ← redirectSegments cx bound rest
    pure (.text value :: rest)
  | .embed value verb span :: rest => do
    let value ← redirectExpr cx bound value
    let rest ← redirectSegments cx bound rest
    pure (.embed value verb span :: rest)
termination_by structural segments

/-- Redirects the receives of the elements of a composite literal. -/
def redirectElements (cx : Context) (bound : Bound) (elements : List Element) :
    Pass (List Element) :=
  match elements with
  | [] => pure []
  | ⟨key, value⟩ :: rest => do
    let key ← redirectExpr? cx bound key
    let value ← redirectExpr cx bound value
    let rest ← redirectElements cx bound rest
    pure (⟨key, value⟩ :: rest)
termination_by structural elements

/-- Reads the expressions of a statement. -/
def readExprs (cx : Context) (bound : Bound) (es : List Expr) : Pass (List Expr) :=
  match es with
  | [] => pure []
  | e :: rest => do
    let e ← read bound e (redirectExpr cx bound e)
    let rest ← readExprs cx bound rest
    pure (e :: rest)
termination_by structural es

/-- Reads an optional expression of a statement. -/
def readExpr? (cx : Context) (bound : Bound) (e : Option Expr) : Pass (Option Expr) :=
  match e with
  | none => pure none
  | some e => do
    let e ← read bound e (redirectExpr cx bound e)
    pure (some e)
termination_by structural e

/-- Redirects a block. Names that it binds or hides do so up to its end. -/
def redirectBlock (cx : Context) (bound : Bound) (block : Block) : Pass Block :=
  match block with
  | ⟨stmts, span⟩ => do
    let (_, stmts) ← (redirectStmts cx bound stmts).collect
    pure ⟨stmts, span⟩
termination_by structural block

/-- Redirects a list of statements. -/
def redirectStmts (cx : Context) (bound : Bound) (stmts : List Stmt) : Pass Unit :=
  match stmts with
  | [] => pure ()
  | stmt :: rest => do
    let bound ← redirectStmt cx bound stmt
    redirectStmts cx bound rest
termination_by structural stmts

/-- Redirects a statement: emits the statements that take its place, and gives the names that are
bound after it. -/
def redirectStmt (cx : Context) (bound : Bound) (stmt : Stmt) : Pass Bound :=
  match stmt with
  | .bind names call span => do
    let call ← read bound call (redirectExpr cx bound call)
    dispatch cx names call span
    pure (stateNames names ++ bound)
  | .assign targets op values span => do
    rejectCommaOk bound targets.length values
    let values ← readExprs cx bound values
    let targets ← readExprs cx bound targets
    Pass.emit [.assign targets op values span]
    if op = .define then pure (bound.hide (targets.filterMap Expr.asName?)) else pure bound
  | .var names ty values span => do
    rejectCommaOk bound names.length values
    let values ← readExprs cx bound values
    Pass.emit [.var names ty values span]
    pure (bound.hide (names.map (·.name)))
  | .expr value => do
    let value ← read bound value (redirectExpr cx bound value)
    Pass.emit [.expr value]
    pure bound
  | .ret values span => do
    let values ← readExprs cx bound values
    Pass.emit [.ret values span]
    pure bound
  | .throw value span => do
    let value ← read bound value (redirectExpr cx bound value)
    Pass.emit [.throw value span]
    pure bound
  | .go call span => do
    let call ← read bound call (redirectExpr cx bound call)
    Pass.emit [.go call span]
    pure bound
  | .defer call span => do
    let call ← read bound call (redirectExpr cx bound call)
    Pass.emit [.defer call span]
    pure bound
  | .cond branch => do
    let branch ← redirectIf cx bound branch
    Pass.emit [.cond branch]
    pure bound
  | .loop clause body span => do
    let (clause, inner) ← redirectClause cx bound clause
    let body ← redirectBlock cx inner body
    Pass.emit [.loop clause body span]
    pure bound
  | .block body => do
    let body ← redirectBlock cx bound body
    Pass.emit [.block body]
    pure bound
  | .breakLoop span => do
    Pass.emit [.breakLoop span]
    pure bound
  | .continueLoop span => do
    Pass.emit [.continueLoop span]
    pure bound
termination_by structural stmt

/-- Redirects a conditional. -/
def redirectIf (cx : Context) (bound : Bound) (branch : If) : Pass If :=
  match branch with
  | ⟨condition, thenBlock, otherwise, span⟩ => do
    let condition ← read bound condition (redirectExpr cx bound condition)
    let thenBlock ← redirectBlock cx bound thenBlock
    let otherwise ← redirectElse cx bound otherwise
    pure ⟨condition, thenBlock, otherwise, span⟩
termination_by structural branch

/-- Redirects what follows a failed condition. -/
def redirectElse (cx : Context) (bound : Bound) (otherwise : Else) : Pass Else :=
  match otherwise with
  | .none => pure .none
  | .block body => do
    let body ← redirectBlock cx bound body
    pure (.block body)
  | .elseIf branch => do
    let branch ← redirectIf cx bound branch
    pure (.elseIf branch)
termination_by structural otherwise

/-- Redirects a loop header, and gives the names that are bound in the loop. -/
def redirectClause (cx : Context) (bound : Bound) (clause : Clause) : Pass (Clause × Bound) :=
  match clause with
  | .infinite => pure (.infinite, bound)
  | .condition test => do
    let test ← read bound test (redirectExpr cx bound test)
    pure (.condition test, bound)
  | .three first condition post => do
    let (first, bound) ← redirectHeader cx bound first
    let condition ← readExpr? cx bound condition
    let (post, bound) ← redirectHeader cx bound post
    pure (.three first condition post, bound)
  | .range key value define source => do
    match source with
    | .ident name span =>
      if bound.contains name then Pass.report (.rangeOverBinding name) span else pure ()
    | _ => pure ()
    let source ← read bound source (redirectExpr cx bound source)
    let bound := if define then bound.hide ((key.toList ++ value.toList).map (·.name)) else bound
    pure (.range key value define source, bound)
termination_by structural clause

/-- Redirects a statement of a loop header, which has to stay a single statement. -/
def redirectHeader (cx : Context) (bound : Bound) (stmt : Option Stmt) :
    Pass (Option Stmt × Bound) :=
  match stmt with
  | none => pure (none, bound)
  | some (.bind names call span) => do
    Pass.report .bindingInHeader span
    pure (some (.bind names call span), bound)
  | some stmt => do
    let (bound, code) ← (redirectStmt cx bound stmt).collect
    pure (code.getLast?, bound)
termination_by structural stmt
end

/-- Lowers a function that has a go-binding. -/
def lowerFunction (table : SignatureTable) (settings : Settings) (f : Function) :
    Noted Function :=
  let cx : Context := { Scope.ofFunction table f with settings }
  let lowered := (redirectBlock cx [] f.body).runWith (.avoiding settings.stem f.names)
  do
    let body ← lowered
    Noted.record (.bindings f.name (lowered.notes.events.countP Event.isDispatch))
    pure { f with body }

/-- Lowers an item. -/
def lowerItem (table : SignatureTable) (settings : Settings) (item : Item) : Noted Item :=
  match item with
  | .func f =>
    if f.body.hasBinding then do
      let f ← lowerFunction table settings f
      pure (.func f)
    else pure item
  | _ => pure item

/-- The item is the support code of states. -/
def isSupport : Item → Bool
  | .support _ => true
  | _ => false

/-- The items with the support code of states, added at the end unless it is there already. -/
def withSupport (stem : String) (items : List Item) : List Item :=
  if items.any isSupport then items else items ++ [.support stem]

end Dispatch

/-- Replaces the go-bindings of a unit by dispatched tasks. If there is any, the support code of
states is added and the package that it needs is asked for. -/
def dispatchTasks (table : SignatureTable) (settings : Settings) (program : Program) :
    Noted Program :=
  let lowered := program.items.mapM (Dispatch.lowerItem table settings)
  do
    let items ← lowered
    if lowered.notes.events.any Event.isDispatch then
      Noted.require ["sync"]
      pure { program with items := Dispatch.withSupport settings.stem items }
    else pure { program with items }

end Desugar
