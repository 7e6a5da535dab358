import Desugar.Span
import Desugar.Ty

/-!
# Program units as trees

A program unit is the content of one source file: its imports and its top-level items, whose
bodies are statements over expressions. The tree holds both the extended forms (`Expr.attempt`,
`Expr.template`, `Stmt.throw`, `Stmt.bind`) and everything that lowering puts in their place, so
a lowered unit is again a tree of the same type.

* `Expr`, `Stmt` and the family around them are the code of a unit.
* `Item` and `Program` are the declarations that hold it.
-/

namespace Desugar

/-- A floating-point constant, kept as its IEEE 754 binary64 bit pattern. -/
structure Binary64 where
  bits : UInt64
deriving DecidableEq, Inhabited

/-- A constant written in the source. -/
inductive Literal where
  | int (value : Int)
  | float (value : Binary64)
  | string (value : String)
  | rune (value : Char)
  | bool (value : Bool)
  | nil
deriving DecidableEq, Inhabited

/-- Operators between two operands. -/
inductive BinaryOp where
  | add | sub | mul | div | rem
  | and | or
  | bitAnd | bitOr | bitXor | andNot | shl | shr
  | eq | ne | lt | le | gt | ge
deriving DecidableEq, Inhabited

namespace BinaryOp

/-- The operator as it is written. -/
def symbol : BinaryOp → String
  | add => "+"
  | sub => "-"
  | mul => "*"
  | div => "/"
  | rem => "%"
  | and => "&&"
  | or => "||"
  | bitAnd => "&"
  | bitOr => "|"
  | bitXor => "^"
  | andNot => "&^"
  | shl => "<<"
  | shr => ">>"
  | eq => "=="
  | ne => "!="
  | lt => "<"
  | le => "<="
  | gt => ">"
  | ge => ">="

/-- Binding strength; a higher operator binds tighter. -/
def precedence : BinaryOp → Nat
  | mul | div | rem | shl | shr | bitAnd | andNot => 5
  | add | sub | bitOr | bitXor => 4
  | eq | ne | lt | le | gt | ge => 3
  | and => 2
  | or => 1

/-- The right operand is evaluated only if the left one does not decide the result. -/
def isShortCircuit : BinaryOp → Bool
  | and | or => true
  | _ => false

end BinaryOp

/-- Operators before one operand. -/
inductive UnaryOp where
  | neg | not | bitNot
  /-- Takes a value from a channel. -/
  | receive
  | addressOf
  | deref
deriving DecidableEq, Inhabited

/-- The operator as it is written. -/
def UnaryOp.symbol : UnaryOp → String
  | .neg => "-"
  | .not => "!"
  | .bitNot => "^"
  | .receive => "<-"
  | .addressOf => "&"
  | .deref => "*"

/-- How an assignment stores its values. -/
inductive AssignOp where
  /-- `:=`, which declares its targets. -/
  | define
  /-- `=` -/
  | store
  /-- `op=` -/
  | update (op : BinaryOp)
deriving DecidableEq, Inhabited

/-- A name at the place where it is declared. -/
structure Ident where
  name : String
  span : Span := {}
deriving DecidableEq, Inhabited

/-- The blank name, which declares nothing. -/
def Ident.isBlank (id : Ident) : Bool := id.name == "_"

/-- A name with its type: a parameter, a receiver or a field of a struct. -/
structure Param where
  name : String
  ty : Ty
  span : Span := {}
deriving Inhabited

mutual
/-- An expression. -/
inductive Expr where
  | ident (name : String) (span : Span)
  | lit (value : Literal) (span : Span)
  | call (callee : Expr) (args : List Expr) (span : Span)
  /-- A string literal with embedded expressions. -/
  | template (segments : List Segment) (span : Span)
  /-- `try call`: the values of the call, or an early return with its error. -/
  | attempt (operand : Expr) (span : Span)
  | binary (op : BinaryOp) (left right : Expr) (span : Span)
  | unary (op : UnaryOp) (operand : Expr) (span : Span)
  | selector (base : Expr) (field : String) (span : Span)
  /-- An element of a container, or a generic instance when the index is a type. -/
  | index (base index : Expr) (span : Span)
  | composite (ty : Ty) (elements : List Element) (span : Span)
  /-- A function literal. -/
  | func (params : List Param) (returns : Option Ty) (body : Block) (span : Span)
  /-- A type where a value may stand, such as the first argument of `make`. -/
  | ofType (ty : Ty) (span : Span)

/-- A part of a template. -/
inductive Segment where
  | text (value : String)
  | embed (value : Expr) (verb : Option String) (span : Span)

/-- An element of a composite literal. -/
structure Element where
  key : Option Expr
  value : Expr

/-- A sequence of statements with a scope of its own. -/
structure Block where
  stmts : List Stmt
  span : Span := {}

/-- A statement. -/
inductive Stmt where
  | var (names : List Ident) (ty : Option Ty) (values : List Expr) (span : Span)
  | assign (targets : List Expr) (op : AssignOp) (values : List Expr) (span : Span)
  | expr (value : Expr)
  | ret (values : List Expr) (span : Span)
  | cond (branch : If)
  | loop (clause : Clause) (body : Block) (span : Span)
  /-- Returns from the function with an error. -/
  | throw (value : Expr) (span : Span)
  /-- `a, b := go call`: the call runs concurrently and each name stands for one of its results. -/
  | bind (names : List Ident) (call : Expr) (span : Span)
  | go (call : Expr) (span : Span)
  | defer (call : Expr) (span : Span)
  | breakLoop (span : Span)
  | continueLoop (span : Span)
  | block (body : Block)

/-- A condition, what is done when it holds, and what is done otherwise. -/
structure If where
  condition : Expr
  thenBlock : Block
  otherwise : Else
  span : Span := {}

/-- What follows when a condition fails. -/
inductive Else where
  | none
  | block (body : Block)
  | elseIf (branch : If)

/-- The header of a loop. -/
inductive Clause where
  | infinite
  | condition (test : Expr)
  | three (first : Option Stmt) (condition : Option Expr) (post : Option Stmt)
  | range (key value : Option Ident) (define : Bool) (source : Expr)
end

instance : Inhabited Expr := ⟨.lit .nil {}⟩
instance : Inhabited Block := ⟨{ stmts := [] }⟩
instance : Inhabited Stmt := ⟨.block default⟩

/-- The place of an expression in the source. -/
def Expr.span : Expr → Span
  | ident _ s | lit _ s | call _ _ s | template _ s | attempt _ s | binary _ _ _ s | unary _ _ s
  | selector _ _ s | index _ _ s | composite _ _ s | func _ _ _ s | ofType _ s => s

/-- The place of a statement in the source. -/
def Stmt.span : Stmt → Span
  | var _ _ _ s | assign _ _ _ s | ret _ s | loop _ _ s | throw _ s | bind _ _ s | go _ s
  | defer _ s | breakLoop s | continueLoop s => s
  | expr e => e.span
  | cond branch => branch.span
  | block body => body.span

/-- The header has three parts. -/
def Clause.isThree : Clause → Bool
  | three _ _ _ => true
  | _ => false

/-- An imported package. -/
structure Import where
  path : String
  localName : Option String := none
deriving DecidableEq, Inhabited

/-- A function or, with a receiver, a method. -/
structure Function where
  name : String
  receiver : Option Param
  params : List Param
  returns : Option Ty
  body : Block
  span : Span := {}

/-- A struct type. -/
structure Struct where
  name : String
  fields : List Param
  span : Span := {}

/-- An alternative of an enum, with the values it carries. -/
structure Variant where
  name : String
  fields : List Ty
  span : Span := {}

/-- An enum type. -/
structure Enum where
  name : String
  variants : List Variant
  span : Span := {}

/-- A constant declaration. -/
structure Constant where
  name : String
  ty : Option Ty
  value : Expr
  span : Span := {}

/-- A declaration at the top level. -/
inductive Item where
  | func (decl : Function)
  | struct (decl : Struct)
  | enum (decl : Enum)
  | const (decl : Constant)
  /-- The support code of bound tasks, with the stem of all its names. -/
  | support (stem : String)

/-- A program unit, the content of one source file. -/
structure Program where
  name : String
  package : String
  imports : List Import
  items : List Item

namespace Program

/-- The functions and methods of a unit, in order. -/
def functions (p : Program) : List Function :=
  p.items.filterMap fun
    | .func f => some f
    | _ => none

end Program

end Desugar
