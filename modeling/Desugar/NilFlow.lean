import Desugar.LocalTypes
import Desugar.Tree.Build

/-!
# Nil and non-nillable pointers

A pointer of type `*!T` is never nil. The check is made on the unit as it was written, before
types are lowered: it looks at variables, assignments, return statements and arguments, and
reports every place where an expression that may be nil by its form flows into such a pointer.

* `NilFlow.mayBeNil` are the nil-producing expressions.
* `NilFlow.checkFunction` lists the faults of a function.
-/

namespace Desugar.NilFlow

/-- The expression is nil, a name of option type, or a call that may return nil. -/
def mayBeNil (scope : Scope) : Expr → Bool
  | .lit .nil _ => true
  | .ident name _ => ((scope.types.get? name).map Ty.isOption).getD false
  | .call callee _ _ => ((scope.resolve? callee).map Signature.mayReturnNil).getD false
  | _ => false

/-- The fault of a value that flows into a sink, if the sink is never nil and the value may be. -/
def flow (scope : Scope) (sink : Sink) (nonNillable : Bool) (value : Expr) : List Fault :=
  if nonNillable && mayBeNil scope value then [⟨.nilFlow sink, value.span⟩] else []

/-- Faults of a variable declaration. -/
def checkVar (scope : Scope) (names : List Ident) (ty : Option Ty) (values : List Expr)
    (span : Span) : List Fault :=
  match ty with
  | none => []
  | some ty =>
    if ty.isNonNillable then
      (if values.isEmpty then [⟨.uninitialized ty, span⟩] else []) ++
        (names.zip values).flatMap fun (name, value) => flow scope (.name name.name) true value
    else []

/-- Faults of one value that is stored into one target. -/
def checkStore (scope : Scope) (target value : Expr) : List Fault :=
  match target.asName? with
  | some name =>
    flow scope (.name name) (((scope.types.get? name).map Ty.isNonNillable).getD false) value
  | none => []

/-- Faults of an assignment. Only plain stores with one value per target are checked. -/
def checkAssign (scope : Scope) (targets : List Expr) (op : AssignOp) (values : List Expr) :
    List Fault :=
  if op = .store ∧ targets.length = values.length then
    (targets.zip values).flatMap fun (target, value) => checkStore scope target value
  else []

/-- Faults of a return statement in a function with the given declared values. -/
def checkReturn (scope : Scope) (returns : List Ty) (values : List Expr) : List Fault :=
  if values.length = returns.length then
    (returns.zip values).flatMap fun (slot, value) =>
      flow scope .returnSlot slot.isNonNillable value
  else []

/-- Faults of the arguments of a call. -/
def checkArgs (scope : Scope) (callee : Expr) (args : List Expr) : List Fault :=
  match scope.resolve? callee with
  | some sig =>
    (sig.params.zip args).flatMap fun (param, arg) =>
      flow scope (.param sig.name) param.isNonNillable arg
  | none => []

/-- The declared values of a function literal. -/
def literalReturns : Option Ty → List Ty
  | some clause => (ReturnShape.split clause).1
  | none => []

mutual
/-- Faults of the calls in an expression, an outer call before the calls in its parts. The body
of a function literal is checked against the return clause of the literal. -/
def checkExpr (scope : Scope) (e : Expr) : List Fault :=
  match e with
  | .ident _ _ | .lit _ _ | .ofType _ _ => []
  | .call callee args _ =>
    checkArgs scope callee args ++ checkExpr scope callee ++ checkExprs scope args
  | .template segments _ => checkSegments scope segments
  | .attempt operand _ => checkExpr scope operand
  | .binary _ left right _ => checkExpr scope left ++ checkExpr scope right
  | .unary _ operand _ => checkExpr scope operand
  | .selector base _ _ => checkExpr scope base
  | .index base index _ => checkExpr scope base ++ checkExpr scope index
  | .composite _ elements _ => checkElements scope elements
  | .func _ returns body _ => checkBlock scope (literalReturns returns) body
termination_by structural e

/-- Faults of the calls in a list of expressions. -/
def checkExprs (scope : Scope) (es : List Expr) : List Fault :=
  match es with
  | [] => []
  | e :: es => checkExpr scope e ++ checkExprs scope es
termination_by structural es

/-- Faults of the calls in an optional expression. -/
def checkExpr? (scope : Scope) (e : Option Expr) : List Fault :=
  match e with
  | none => []
  | some e => checkExpr scope e
termination_by structural e

/-- Faults of the calls in the embeds of a template. -/
def checkSegments (scope : Scope) (segments : List Segment) : List Fault :=
  match segments with
  | [] => []
  | .text _ :: rest => checkSegments scope rest
  | .embed value _ _ :: rest => checkExpr scope value ++ checkSegments scope rest
termination_by structural segments

/-- Faults of the calls in the elements of a composite literal. -/
def checkElements (scope : Scope) (elements : List Element) : List Fault :=
  match elements with
  | [] => []
  | ⟨key, value⟩ :: rest =>
    checkExpr? scope key ++ checkExpr scope value ++ checkElements scope rest
termination_by structural elements

/-- Faults of a block in a function with the given declared values. -/
def checkBlock (scope : Scope) (returns : List Ty) (block : Block) : List Fault :=
  match block with
  | ⟨stmts, _⟩ => checkStmts scope returns stmts
termination_by structural block

/-- Faults of a list of statements. -/
def checkStmts (scope : Scope) (returns : List Ty) (stmts : List Stmt) : List Fault :=
  match stmts with
  | [] => []
  | stmt :: rest => checkStmt scope returns stmt ++ checkStmts scope returns rest
termination_by structural stmts

/-- Faults of a statement: first what it stores or returns and the blocks in it, then the calls
in its own expressions. -/
def checkStmt (scope : Scope) (returns : List Ty) (stmt : Stmt) : List Fault :=
  match stmt with
  | .var names ty values span => checkVar scope names ty values span ++ checkExprs scope values
  | .assign targets op values _ =>
    checkAssign scope targets op values ++ checkExprs scope targets ++ checkExprs scope values
  | .expr value => checkExpr scope value
  | .ret values _ => checkReturn scope returns values ++ checkExprs scope values
  | .cond ⟨condition, thenBlock, otherwise, _⟩ =>
    checkBlock scope returns thenBlock ++ checkElse scope returns otherwise ++
      checkExpr scope condition
  | .loop clause body _ =>
    checkFirst scope returns clause ++ checkBlock scope returns body ++ checkHeader scope clause
  | .throw value _ => checkExpr scope value
  | .bind _ call _ => checkExpr scope call
  | .go call _ => checkExpr scope call
  | .defer call _ => checkExpr scope call
  | .breakLoop _ | .continueLoop _ => []
  | .block body => checkBlock scope returns body
termination_by structural stmt

/-- Faults of the blocks that follow a failed condition. -/
def checkElse (scope : Scope) (returns : List Ty) (otherwise : Else) : List Fault :=
  match otherwise with
  | .none => []
  | .block body => checkBlock scope returns body
  | .elseIf ⟨_, thenBlock, otherwise, _⟩ =>
    checkBlock scope returns thenBlock ++ checkElse scope returns otherwise
termination_by structural otherwise

/-- Faults of the first statement of a loop header. -/
def checkFirst (scope : Scope) (returns : List Ty) (clause : Clause) : List Fault :=
  match clause with
  | .three (some first) _ _ => checkStmt scope returns first
  | _ => []
termination_by structural clause

/-- Faults of the calls in the expression of a loop header. -/
def checkHeader (scope : Scope) (clause : Clause) : List Fault :=
  match clause with
  | .infinite => []
  | .condition test => checkExpr scope test
  | .three _ condition _ => checkExpr? scope condition
  | .range _ _ _ source => checkExpr scope source
termination_by structural clause
end

/-- Faults of a function, checked against its signature. -/
def checkFunction (table : SignatureTable) (f : Function) : List Fault :=
  let returns := ((table.get? f.key).map (·.returns.declared)).getD []
  checkBlock (.ofFunction table f) returns f.body

end Desugar.NilFlow
