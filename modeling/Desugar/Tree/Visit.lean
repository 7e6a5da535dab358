import Desugar.Tree

/-!
# The expressions of a tree, in evaluation order

`Expr.visit descend e` lists the expressions of `e`, a node before its parts and the parts from
left to right; the parts of a node are listed only if `descend` holds of it. The functions beside
it do the same for every other kind of tree, and statements are listed in the order in which
control reaches them.

* `Expr.containsAttempt` and `Stmt.containsAttempt` look for a `try` that belongs to the
  function at hand.
* `Expr.isPure` tells that evaluating an expression runs nothing.
-/

namespace Desugar

/-- A node followed by its parts, if the walk goes into it. -/
def visited (descend : Expr → Bool) (node : Expr) (parts : List Expr) : List Expr :=
  node :: if descend node then parts else []

mutual
/-- The expressions of an expression. -/
def Expr.visit (descend : Expr → Bool) (e : Expr) : List Expr :=
  match e with
  | .ident name span => [.ident name span]
  | .lit value span => [.lit value span]
  | .call callee args span =>
    visited descend (.call callee args span) (callee.visit descend ++ Expr.visitList descend args)
  | .template segments span =>
    visited descend (.template segments span) (Segment.visitList descend segments)
  | .attempt operand span => visited descend (.attempt operand span) (operand.visit descend)
  | .binary op left right span =>
    visited descend (.binary op left right span) (left.visit descend ++ right.visit descend)
  | .unary op operand span => visited descend (.unary op operand span) (operand.visit descend)
  | .selector base field span => visited descend (.selector base field span) (base.visit descend)
  | .index base index span =>
    visited descend (.index base index span) (base.visit descend ++ index.visit descend)
  | .composite ty elements span =>
    visited descend (.composite ty elements span) (Element.visitList descend elements)
  | .func params returns body span =>
    visited descend (.func params returns body span) (body.visit descend)
  | .ofType ty span => [.ofType ty span]
termination_by structural e

/-- The expressions of a list of expressions. -/
def Expr.visitList (descend : Expr → Bool) (es : List Expr) : List Expr :=
  match es with
  | [] => []
  | e :: es => e.visit descend ++ Expr.visitList descend es
termination_by structural es

/-- The expression of an optional expression. -/
def Expr.visitOption (descend : Expr → Bool) (e : Option Expr) : List Expr :=
  match e with
  | none => []
  | some e => e.visit descend
termination_by structural e

/-- The expressions embedded in a template. -/
def Segment.visitList (descend : Expr → Bool) (segments : List Segment) : List Expr :=
  match segments with
  | [] => []
  | .text _ :: rest => Segment.visitList descend rest
  | .embed value _ _ :: rest => value.visit descend ++ Segment.visitList descend rest
termination_by structural segments

/-- The expressions of the elements of a composite literal, a key before its value. -/
def Element.visitList (descend : Expr → Bool) (elements : List Element) : List Expr :=
  match elements with
  | [] => []
  | ⟨key, value⟩ :: rest =>
    Expr.visitOption descend key ++ value.visit descend ++ Element.visitList descend rest
termination_by structural elements

/-- The expressions of a block. -/
def Block.visit (descend : Expr → Bool) (block : Block) : List Expr :=
  match block with
  | ⟨stmts, _⟩ => Stmt.visitList descend stmts
termination_by structural block

/-- The expressions of a list of statements. -/
def Stmt.visitList (descend : Expr → Bool) (stmts : List Stmt) : List Expr :=
  match stmts with
  | [] => []
  | stmt :: rest => stmt.visit descend ++ Stmt.visitList descend rest
termination_by structural stmts

/-- The expressions of a statement: the targets of an assignment before its values, the header of
a loop before its body. -/
def Stmt.visit (descend : Expr → Bool) (stmt : Stmt) : List Expr :=
  match stmt with
  | .var _ _ values _ => Expr.visitList descend values
  | .assign targets _ values _ => Expr.visitList descend targets ++ Expr.visitList descend values
  | .expr value => value.visit descend
  | .ret values _ => Expr.visitList descend values
  | .cond branch => branch.visit descend
  | .loop clause body _ => clause.visit descend ++ body.visit descend
  | .throw value _ => value.visit descend
  | .bind _ call _ => call.visit descend
  | .go call _ => call.visit descend
  | .defer call _ => call.visit descend
  | .breakLoop _ => []
  | .continueLoop _ => []
  | .block body => body.visit descend
termination_by structural stmt

/-- The expressions of an optional statement. -/
def Stmt.visitOption (descend : Expr → Bool) (stmt : Option Stmt) : List Expr :=
  match stmt with
  | none => []
  | some stmt => stmt.visit descend
termination_by structural stmt

/-- The expressions of a conditional. -/
def If.visit (descend : Expr → Bool) (branch : If) : List Expr :=
  match branch with
  | ⟨condition, thenBlock, otherwise, _⟩ =>
    condition.visit descend ++ thenBlock.visit descend ++ otherwise.visit descend
termination_by structural branch

/-- The expressions of what follows a failed condition. -/
def Else.visit (descend : Expr → Bool) (otherwise : Else) : List Expr :=
  match otherwise with
  | .none => []
  | .block body => body.visit descend
  | .elseIf branch => branch.visit descend
termination_by structural otherwise

/-- The expressions of a loop header. -/
def Clause.visit (descend : Expr → Bool) (clause : Clause) : List Expr :=
  match clause with
  | .infinite => []
  | .condition test => test.visit descend
  | .three first condition post =>
    Stmt.visitOption descend first ++ Expr.visitOption descend condition ++
      Stmt.visitOption descend post
  | .range _ _ _ source => source.visit descend
termination_by structural clause
end

/-- The node is a `try`. -/
def Expr.isAttempt : Expr → Bool
  | .attempt _ _ => true
  | _ => false

/-- The node is a function literal. -/
def Expr.isFunc : Expr → Bool
  | .func _ _ _ _ => true
  | _ => false

/-- The node runs something when it is evaluated: a call, or a receive from a channel. -/
def Expr.isEffect : Expr → Bool
  | .call _ _ _ => true
  | .unary .receive _ _ => true
  | _ => false

/-- Goes into every node except function literals, whose code runs in a function of its own. -/
def Expr.outsideFuncs (e : Expr) : Bool := !e.isFunc

/-- A `try` occurs outside every function literal of the expression. -/
def Expr.containsAttempt (e : Expr) : Bool := (e.visit Expr.outsideFuncs).any Expr.isAttempt

/-- A `try` occurs in the statement outside every function literal. -/
def Stmt.containsAttempt (s : Stmt) : Bool := (s.visit Expr.outsideFuncs).any Expr.isAttempt

/-- A `try` occurs in the key or the value of an element, outside function literals. -/
def Element.containsAttempt (element : Element) : Bool :=
  (element.key.map Expr.containsAttempt).getD false || element.value.containsAttempt

/-- A `try` occurs in an embed, outside function literals. -/
def Segment.containsAttempt : Segment → Bool
  | .text _ => false
  | .embed value _ _ => value.containsAttempt

/-- No call and no receive occurs outside the function literals of the expression. -/
def Expr.isPure (e : Expr) : Bool := !(e.visit Expr.outsideFuncs).any Expr.isEffect

end Desugar
