import Desugar.Tree

/-!
# Rebuilding a tree from the leaves up

`Expr.rebuild deep f e` replaces every node of `e` by what `f` makes of it, the parts of a node
before the node itself and from left to right, so that `f` sees a node whose parts are already
replaced. With `deep := false` function literals are handed to `f` with their bodies untouched.
The replacement runs in a monad, which is how a caller learns in which order nodes were handed
over.
-/

namespace Desugar

mutual
/-- Rebuilds an expression. -/
def Expr.rebuild {m : Type → Type} [Monad m] (deep : Bool) (f : Expr → m Expr) (e : Expr) :
    m Expr :=
  match e with
  | .ident name span => f (.ident name span)
  | .lit value span => f (.lit value span)
  | .call callee args span => do
    let callee ← callee.rebuild deep f
    let args ← Expr.rebuildList deep f args
    f (.call callee args span)
  | .template segments span => do
    let segments ← Segment.rebuildList deep f segments
    f (.template segments span)
  | .attempt operand span => do
    let operand ← operand.rebuild deep f
    f (.attempt operand span)
  | .binary op left right span => do
    let left ← left.rebuild deep f
    let right ← right.rebuild deep f
    f (.binary op left right span)
  | .unary op operand span => do
    let operand ← operand.rebuild deep f
    f (.unary op operand span)
  | .selector base field span => do
    let base ← base.rebuild deep f
    f (.selector base field span)
  | .index base index span => do
    let base ← base.rebuild deep f
    let index ← index.rebuild deep f
    f (.index base index span)
  | .composite ty elements span => do
    let elements ← Element.rebuildList deep f elements
    f (.composite ty elements span)
  | .func params returns body span => do
    let body ← if deep then body.rebuild deep f else pure body
    f (.func params returns body span)
  | .ofType ty span => f (.ofType ty span)
termination_by structural e

/-- Rebuilds a list of expressions from left to right. -/
def Expr.rebuildList {m : Type → Type} [Monad m] (deep : Bool) (f : Expr → m Expr)
    (es : List Expr) : m (List Expr) :=
  match es with
  | [] => pure []
  | e :: es => do
    let e ← e.rebuild deep f
    let es ← Expr.rebuildList deep f es
    pure (e :: es)
termination_by structural es

/-- Rebuilds an optional expression. -/
def Expr.rebuildOption {m : Type → Type} [Monad m] (deep : Bool) (f : Expr → m Expr)
    (e : Option Expr) : m (Option Expr) :=
  match e with
  | none => pure none
  | some e => do
    let e ← e.rebuild deep f
    pure (some e)
termination_by structural e

/-- Rebuilds the expressions embedded in a template. -/
def Segment.rebuildList {m : Type → Type} [Monad m] (deep : Bool) (f : Expr → m Expr)
    (segments : List Segment) : m (List Segment) :=
  match segments with
  | [] => pure []
  | .text value :: rest => do
    let rest ← Segment.rebuildList deep f rest
    pure (.text value :: rest)
  | .embed value verb span :: rest => do
    let value ← value.rebuild deep f
    let rest ← Segment.rebuildList deep f rest
    pure (.embed value verb span :: rest)
termination_by structural segments

/-- Rebuilds the elements of a composite literal, a key before its value. -/
def Element.rebuildList {m : Type → Type} [Monad m] (deep : Bool) (f : Expr → m Expr)
    (elements : List Element) : m (List Element) :=
  match elements with
  | [] => pure []
  | ⟨key, value⟩ :: rest => do
    let key ← Expr.rebuildOption deep f key
    let value ← value.rebuild deep f
    let rest ← Element.rebuildList deep f rest
    pure (⟨key, value⟩ :: rest)
termination_by structural elements

/-- Rebuilds a block. -/
def Block.rebuild {m : Type → Type} [Monad m] (deep : Bool) (f : Expr → m Expr) (block : Block) :
    m Block :=
  match block with
  | ⟨stmts, span⟩ => do
    let stmts ← Stmt.rebuildList deep f stmts
    pure ⟨stmts, span⟩
termination_by structural block

/-- Rebuilds a list of statements. -/
def Stmt.rebuildList {m : Type → Type} [Monad m] (deep : Bool) (f : Expr → m Expr)
    (stmts : List Stmt) : m (List Stmt) :=
  match stmts with
  | [] => pure []
  | stmt :: rest => do
    let stmt ← stmt.rebuild deep f
    let rest ← Stmt.rebuildList deep f rest
    pure (stmt :: rest)
termination_by structural stmts

/-- Rebuilds the expressions of a statement. -/
def Stmt.rebuild {m : Type → Type} [Monad m] (deep : Bool) (f : Expr → m Expr) (stmt : Stmt) :
    m Stmt :=
  match stmt with
  | .var names ty values span => do
    let values ← Expr.rebuildList deep f values
    pure (.var names ty values span)
  | .assign targets op values span => do
    let targets ← Expr.rebuildList deep f targets
    let values ← Expr.rebuildList deep f values
    pure (.assign targets op values span)
  | .expr value => do
    let value ← value.rebuild deep f
    pure (.expr value)
  | .ret values span => do
    let values ← Expr.rebuildList deep f values
    pure (.ret values span)
  | .cond branch => do
    let branch ← branch.rebuild deep f
    pure (.cond branch)
  | .loop clause body span => do
    let clause ← clause.rebuild deep f
    let body ← body.rebuild deep f
    pure (.loop clause body span)
  | .throw value span => do
    let value ← value.rebuild deep f
    pure (.throw value span)
  | .bind names call span => do
    let call ← call.rebuild deep f
    pure (.bind names call span)
  | .go call span => do
    let call ← call.rebuild deep f
    pure (.go call span)
  | .defer call span => do
    let call ← call.rebuild deep f
    pure (.defer call span)
  | .breakLoop span => pure (.breakLoop span)
  | .continueLoop span => pure (.continueLoop span)
  | .block body => do
    let body ← body.rebuild deep f
    pure (.block body)
termination_by structural stmt

/-- Rebuilds an optional statement. -/
def Stmt.rebuildOption {m : Type → Type} [Monad m] (deep : Bool) (f : Expr → m Expr)
    (stmt : Option Stmt) : m (Option Stmt) :=
  match stmt with
  | none => pure none
  | some stmt => do
    let stmt ← stmt.rebuild deep f
    pure (some stmt)
termination_by structural stmt

/-- Rebuilds a conditional. -/
def If.rebuild {m : Type → Type} [Monad m] (deep : Bool) (f : Expr → m Expr) (branch : If) :
    m If :=
  match branch with
  | ⟨condition, thenBlock, otherwise, span⟩ => do
    let condition ← condition.rebuild deep f
    let thenBlock ← thenBlock.rebuild deep f
    let otherwise ← otherwise.rebuild deep f
    pure ⟨condition, thenBlock, otherwise, span⟩
termination_by structural branch

/-- Rebuilds what follows a failed condition. -/
def Else.rebuild {m : Type → Type} [Monad m] (deep : Bool) (f : Expr → m Expr)
    (otherwise : Else) : m Else :=
  match otherwise with
  | .none => pure .none
  | .block body => do
    let body ← body.rebuild deep f
    pure (.block body)
  | .elseIf branch => do
    let branch ← branch.rebuild deep f
    pure (.elseIf branch)
termination_by structural otherwise

/-- Rebuilds a loop header. -/
def Clause.rebuild {m : Type → Type} [Monad m] (deep : Bool) (f : Expr → m Expr)
    (clause : Clause) : m Clause :=
  match clause with
  | .infinite => pure .infinite
  | .condition test => do
    let test ← test.rebuild deep f
    pure (.condition test)
  | .three first condition post => do
    let first ← Stmt.rebuildOption deep f first
    let condition ← Expr.rebuildOption deep f condition
    let post ← Stmt.rebuildOption deep f post
    pure (.three first condition post)
  | .range key value define source => do
    let source ← source.rebuild deep f
    pure (.range key value define source)
termination_by structural clause
end

end Desugar
