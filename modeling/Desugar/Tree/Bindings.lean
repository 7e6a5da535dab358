import Desugar.Tree

/-!
# Where go-bindings occur

`Block.hasBinding` tells whether a block has a go-binding among its statements, at any depth and
inside function literals too. A go-binding that is itself part of a loop header does not count,
since no header can be made of its lowered form; the function literals in a header do.
-/

namespace Desugar

mutual
/-- A function literal of the expression has a go-binding in its body. -/
def Expr.hasBinding (e : Expr) : Bool :=
  match e with
  | .ident _ _ | .lit _ _ | .ofType _ _ => false
  | .call callee args _ => callee.hasBinding || Expr.hasBindingList args
  | .template segments _ => Segment.hasBindingList segments
  | .attempt operand _ => operand.hasBinding
  | .binary _ left right _ => left.hasBinding || right.hasBinding
  | .unary _ operand _ => operand.hasBinding
  | .selector base _ _ => base.hasBinding
  | .index base index _ => base.hasBinding || index.hasBinding
  | .composite _ elements _ => Element.hasBindingList elements
  | .func _ _ body _ => body.hasBindingIn false
termination_by structural e

/-- An expression of the list has a function literal with a go-binding. -/
def Expr.hasBindingList (es : List Expr) : Bool :=
  match es with
  | [] => false
  | e :: es => e.hasBinding || Expr.hasBindingList es
termination_by structural es

/-- The expression, if any, has a function literal with a go-binding. -/
def Expr.hasBindingOption (e : Option Expr) : Bool :=
  match e with
  | none => false
  | some e => e.hasBinding
termination_by structural e

/-- An embed has a function literal with a go-binding. -/
def Segment.hasBindingList (segments : List Segment) : Bool :=
  match segments with
  | [] => false
  | .text _ :: rest => Segment.hasBindingList rest
  | .embed value _ _ :: rest => value.hasBinding || Segment.hasBindingList rest
termination_by structural segments

/-- A key or value has a function literal with a go-binding. -/
def Element.hasBindingList (elements : List Element) : Bool :=
  match elements with
  | [] => false
  | ⟨key, value⟩ :: rest =>
    Expr.hasBindingOption key || value.hasBinding || Element.hasBindingList rest
termination_by structural elements

/-- The block has a go-binding; inside a loop header only those in function literals count. -/
def Block.hasBindingIn (header : Bool) (block : Block) : Bool :=
  match block with
  | ⟨stmts, _⟩ => Stmt.hasBindingInList header stmts
termination_by structural block

/-- A statement of the list has a go-binding. -/
def Stmt.hasBindingInList (header : Bool) (stmts : List Stmt) : Bool :=
  match stmts with
  | [] => false
  | stmt :: rest => stmt.hasBindingIn header || Stmt.hasBindingInList header rest
termination_by structural stmts

/-- The statement is a go-binding or has one in it. -/
def Stmt.hasBindingIn (header : Bool) (stmt : Stmt) : Bool :=
  match stmt with
  | .var _ _ values _ => Expr.hasBindingList values
  | .assign targets _ values _ => Expr.hasBindingList targets || Expr.hasBindingList values
  | .expr value => value.hasBinding
  | .ret values _ => Expr.hasBindingList values
  | .cond branch => branch.hasBindingIn header
  | .loop clause body _ => clause.hasBinding || body.hasBindingIn header
  | .throw value _ => value.hasBinding
  | .bind _ call _ => !header || call.hasBinding
  | .go call _ => call.hasBinding
  | .defer call _ => call.hasBinding
  | .breakLoop _ | .continueLoop _ => false
  | .block body => body.hasBindingIn header
termination_by structural stmt

/-- The statement of a loop header, if any, has a function literal with a go-binding. -/
def Stmt.hasBindingOption (stmt : Option Stmt) : Bool :=
  match stmt with
  | none => false
  | some stmt => stmt.hasBindingIn true
termination_by structural stmt

/-- The conditional has a go-binding. -/
def If.hasBindingIn (header : Bool) (branch : If) : Bool :=
  match branch with
  | ⟨condition, thenBlock, otherwise, _⟩ =>
    condition.hasBinding || thenBlock.hasBindingIn header || otherwise.hasBindingIn header
termination_by structural branch

/-- What follows a failed condition has a go-binding. -/
def Else.hasBindingIn (header : Bool) (otherwise : Else) : Bool :=
  match otherwise with
  | .none => false
  | .block body => body.hasBindingIn header
  | .elseIf branch => branch.hasBindingIn header
termination_by structural otherwise

/-- A function literal of the loop header has a go-binding. -/
def Clause.hasBinding (clause : Clause) : Bool :=
  match clause with
  | .infinite => false
  | .condition test => test.hasBinding
  | .three first condition post =>
    Stmt.hasBindingOption first || Expr.hasBindingOption condition || Stmt.hasBindingOption post
  | .range _ _ _ source => source.hasBinding
termination_by structural clause
end

/-- The block has a go-binding outside loop headers. -/
def Block.hasBinding (block : Block) : Bool := block.hasBindingIn false

end Desugar
