import Desugar.Tree

/-!
# Code that lowering inserts

Short forms for the trees that the passes put into a program. Inserted code has no place in the
source, so all of it carries the span `Span.nowhere`.
-/

namespace Desugar

namespace Expr

/-- A reference to a name. -/
def name (text : String) : Expr := .ident text .nowhere

/-- A string constant. -/
def string (text : String) : Expr := .lit (.string text) .nowhere

/-- An integer constant. -/
def int (value : Int) : Expr := .lit (.int value) .nowhere

/-- A truth value. -/
def bool (value : Bool) : Expr := .lit (.bool value) .nowhere

/-- The constant `nil`. -/
def nil : Expr := .lit .nil .nowhere

/-- A call. -/
def apply (callee : Expr) (args : List Expr) : Expr := .call callee args .nowhere

/-- A member of a value or a package. -/
def member (base : Expr) (field : String) : Expr := .selector base field .nowhere

/-- A call of a method of a named value. -/
def method (receiver field : String) (args : List Expr) : Expr :=
  ((name receiver).member field).apply args

/-- The test `name != nil`. -/
def isNotNil (text : String) : Expr := .binary .ne (name text) nil .nowhere

/-- The name that an expression consists of, if it is just a name. -/
def asName? : Expr → Option String
  | .ident text _ => some text
  | _ => none

/-- The expression is the constant `nil`. -/
def isNil : Expr → Bool
  | .lit .nil _ => true
  | _ => false

end Expr

/-- A block of inserted statements. -/
def Block.inserted (stmts : List Stmt) : Block := { stmts, span := .nowhere }

namespace Stmt

/-- `names := values`. -/
def define (names : List String) (values : List Expr) : Stmt :=
  .assign (names.map Expr.name) .define values .nowhere

/-- `name = value`. -/
def store (name : String) (value : Expr) : Stmt :=
  .assign [Expr.name name] .store [value] .nowhere

/-- A conditional without an alternative. -/
def onlyIf (condition : Expr) (body : List Stmt) : Stmt :=
  .cond { condition, thenBlock := .inserted body, otherwise := .none, span := .nowhere }

end Stmt

end Desugar
