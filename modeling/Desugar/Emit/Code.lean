import Desugar.Emit.Literal
import Desugar.Emit.Ty

/-!
# The text of code

Expressions and statements in the notation of the base language, one statement a line and tabs
for indentation. Parentheses are written only where the tree would otherwise be read in another
way: a binary expression below an operator that binds tighter, a unary expression that is called,
selected from or indexed, and an operand whose first character would join its operator.

Extended forms that are left in the code are faults, found in the order in which the text is
made.
-/

namespace Desugar.Emit

/-- `count` tabs. -/
def tabs (count : Nat) : String := String.ofList (List.replicate count '\t')

/-- An opening brace at the end of a line. -/
def opening : String := "\x7b\n"

/-- A closing brace. -/
def closing : String := "\x7d"

/-- A text in parentheses. -/
def parens (text : String) : String := "(" ++ text ++ ")"

/-- The binding strength of unary operators, above all binary ones. -/
def unaryPrecedence : Nat := 6

/-- The binding strength of what is called, selected from or indexed. -/
def primaryPrecedence : Nat := 7

/-- A binary expression below an operator of strength `outer`. -/
def binaryText (outer : Nat) (op : BinaryOp) (left right : String) : String :=
  let text := left ++ " " ++ op.symbol ++ " " ++ right
  if op.precedence < outer then parens text else text

/-- The text would be read together with an operator that is written right before it. -/
def joins (op : UnaryOp) (text : String) : Bool :=
  match op.symbol.toList.getLast?, text.toList.head? with
  | some last, some first => last == first
  | _, _ => false

/-- A unary expression below an operator of strength `outer`. -/
def unaryText (outer : Nat) (op : UnaryOp) (operand : String) : String :=
  let operand := if joins op operand then parens operand else operand
  let text := op.symbol ++ operand
  if primaryPrecedence ≤ outer then parens text else text

/-- The text starts like a dereference or a receive. -/
def startsUnary (text : String) : Bool :=
  match text.toList with
  | '*' :: _ => true
  | '<' :: '-' :: _ => true
  | _ => false

/-- A type in an expression below an operator of strength `outer`. A type that starts like a
unary expression is treated as one. -/
def tyExprText (outer : Nat) (text : String) : String :=
  if primaryPrecedence ≤ outer && startsUnary text then parens text else text

/-- A parameter with its type. -/
def param (p : Param) : Except Fault String := do
  let t ← ty p.ty p.span
  .ok (p.name ++ " " ++ t)

/-- The parameters of a list. -/
def params : List Param → Except Fault (List String)
  | [] => .ok []
  | p :: ps => do
    let p ← param p
    let ps ← params ps
    .ok (p :: ps)

/-- The parameters and the return clause of a function. -/
def signature (ps : List Param) (returns : Option Ty) (span : Span) : Except Fault String := do
  let ps ← params ps
  let returns ← returnClause span returns
  .ok (parens (", ".intercalate ps) ++ returns)

/-- The operator of an assignment. -/
def assignSymbol : AssignOp → String
  | .define => ":="
  | .store => "="
  | .update op => op.symbol ++ "="

/-- The header of a loop over a container. -/
def rangeText (key value : Option Ident) (define : Bool) (source : String) : String :=
  let op := if define then " := " else " = "
  match key, value with
  | none, none => "for range " ++ source
  | some key, none => "for " ++ key.name ++ op ++ "range " ++ source
  | none, some value => "for _, " ++ value.name ++ op ++ "range " ++ source
  | some key, some value => "for " ++ key.name ++ ", " ++ value.name ++ op ++ "range " ++ source

/-- Where a statement is written. -/
inductive Position where
  /-- In a block with the given indentation, as a line of its own. -/
  | line (indent : Nat)
  /-- In the header of a loop at the given indentation. -/
  | header (indent : Nat)

namespace Position

/-- The indentation of the code around the statement. -/
def indent : Position → Nat
  | line indent | header indent => indent

/-- A text at a position. -/
def place : Position → String → String
  | line indent, text => tabs indent ++ text ++ "\n"
  | header _, text => text

/-- A statement that cannot be written in a header is misplaced there. -/
def lineOnly (position : Position) (span : Span) (text : Nat → Except Fault String) :
    Except Fault String :=
  match position with
  | line indent => text indent
  | header _ => .error ⟨.misplacedStatement, span⟩

end Position

mutual
/-- An expression below an operator of strength `outer`. -/
def expr (outer indent : Nat) (e : Expr) : Except Fault String :=
  match e with
  | .ident name _ => .ok name
  | .lit value span => literal value span
  | .binary op left right _ => do
    let left ← expr op.precedence indent left
    let right ← expr (op.precedence + 1) indent right
    .ok (binaryText outer op left right)
  | .unary op operand _ => do
    let operand ← expr unaryPrecedence indent operand
    .ok (unaryText outer op operand)
  | .call callee args _ => do
    let callee ← expr primaryPrecedence indent callee
    let args ← exprs indent args
    .ok (callee ++ parens (", ".intercalate args))
  | .selector base field _ => do
    let base ← expr primaryPrecedence indent base
    .ok (base ++ "." ++ field)
  | .index base index _ => do
    let base ← expr primaryPrecedence indent base
    let index ← expr 0 indent index
    .ok (base ++ "[" ++ index ++ "]")
  | .composite t elements span => do
    let elements ← elementTexts indent elements
    let t ← ty t span
    .ok (t ++ "\x7b" ++ ", ".intercalate elements ++ closing)
  | .func ps returns body span => do
    let body ← block (indent + 1) body
    let signature ← signature ps returns span
    .ok ("func" ++ signature ++ " " ++ opening ++ body ++ tabs indent ++ closing)
  | .ofType t span => do
    let t ← ty t span
    .ok (tyExprText outer t)
  | .template _ span => .error ⟨.emittedTemplate, span⟩
  | .attempt _ span => .error ⟨.emittedAttempt, span⟩
termination_by structural e

/-- The expressions of a list. -/
def exprs (indent : Nat) (es : List Expr) : Except Fault (List String) :=
  match es with
  | [] => .ok []
  | e :: rest => do
    let e ← expr 0 indent e
    let rest ← exprs indent rest
    .ok (e :: rest)
termination_by structural es

/-- The elements of a composite literal. -/
def elementTexts (indent : Nat) (elements : List Element) : Except Fault (List String) :=
  match elements with
  | [] => .ok []
  | ⟨key, value⟩ :: rest => do
    let value ← expr 0 indent value
    let key ← keyText indent key
    let rest ← elementTexts indent rest
    .ok ((key ++ value) :: rest)
termination_by structural elements

/-- The key of an element, with its colon. -/
def keyText (indent : Nat) (key : Option Expr) : Except Fault String :=
  match key with
  | none => .ok ""
  | some key => do
    let key ← expr 0 indent key
    .ok (key ++ ": ")
termination_by structural key

/-- The lines of a block. -/
def block (indent : Nat) (b : Block) : Except Fault String :=
  match b with
  | ⟨stmts, _⟩ => lines indent stmts
termination_by structural b

/-- The lines of a list of statements. -/
def lines (indent : Nat) (stmts : List Stmt) : Except Fault String :=
  match stmts with
  | [] => .ok ""
  | s :: rest => do
    let s ← stmt (.line indent) s
    let rest ← lines indent rest
    .ok (s ++ rest)
termination_by structural stmts

/-- A statement at a position. -/
def stmt (position : Position) (s : Stmt) : Except Fault String :=
  match s with
  | .var names t values span => do
    let t ← match t with
      | some t => do
        let t ← ty t span
        .ok (" " ++ t)
      | none => .ok ""
    let values ← exprs position.indent values
    let values := if values.isEmpty then "" else " = " ++ ", ".intercalate values
    .ok (position.place ("var " ++ ", ".intercalate (names.map (·.name)) ++ t ++ values))
  | .assign targets op values _ => do
    let targets ← exprs position.indent targets
    let values ← exprs position.indent values
    .ok (position.place
      (", ".intercalate targets ++ " " ++ assignSymbol op ++ " " ++ ", ".intercalate values))
  | .expr value => do
    let value ← expr 0 position.indent value
    .ok (position.place value)
  | .ret values _ => do
    let values ← exprs position.indent values
    .ok (position.place
      (if values.isEmpty then "return" else "return " ++ ", ".intercalate values))
  | .go call _ => do
    let call ← expr 0 position.indent call
    .ok (position.place ("go " ++ call))
  | .defer call _ => do
    let call ← expr 0 position.indent call
    .ok (position.place ("defer " ++ call))
  | .breakLoop _ => .ok (position.place "break")
  | .continueLoop _ => .ok (position.place "continue")
  | .cond ⟨condition, thenBlock, otherwise, span⟩ =>
    position.lineOnly span fun indent => do
      let condition ← expr 0 indent condition
      let thenBlock ← block (indent + 1) thenBlock
      let otherwise ← elseText indent otherwise
      .ok (tabs indent ++ "if " ++ condition ++ " " ++ opening ++ thenBlock ++ tabs indent ++
        closing ++ otherwise ++ "\n")
  | .loop clause body span =>
    position.lineOnly span fun indent => do
      let header ← clauseText indent clause
      let body ← block (indent + 1) body
      .ok (tabs indent ++ header ++ " " ++ opening ++ body ++ tabs indent ++ closing ++ "\n")
  | .block ⟨stmts, span⟩ =>
    position.lineOnly span fun indent => do
      let body ← lines (indent + 1) stmts
      .ok (tabs indent ++ opening ++ body ++ tabs indent ++ closing ++ "\n")
  | .throw _ span => position.lineOnly span fun _ => .error ⟨.emittedThrow, span⟩
  | .bind _ _ span => position.lineOnly span fun _ => .error ⟨.emittedBinding, span⟩
termination_by structural s

/-- What follows the first branch of a conditional. -/
def elseText (indent : Nat) (otherwise : Else) : Except Fault String :=
  match otherwise with
  | .none => .ok ""
  | .block body => do
    let body ← block (indent + 1) body
    .ok (" else " ++ opening ++ body ++ tabs indent ++ closing)
  | .elseIf ⟨condition, thenBlock, otherwise, _⟩ => do
    let condition ← expr 0 indent condition
    let thenBlock ← block (indent + 1) thenBlock
    let otherwise ← elseText indent otherwise
    .ok (" else if " ++ condition ++ " " ++ opening ++ thenBlock ++ tabs indent ++ closing ++
      otherwise)
termination_by structural otherwise

/-- The header of a loop, without its brace. -/
def clauseText (indent : Nat) (clause : Clause) : Except Fault String :=
  match clause with
  | .infinite => .ok "for"
  | .condition test => do
    let test ← expr 0 indent test
    .ok ("for " ++ test)
  | .three first condition post => do
    let first ← headerText indent "" first
    let condition ← conditionText indent condition
    let post ← headerText indent " " post
    .ok ("for " ++ first ++ ";" ++ condition ++ ";" ++ post)
  | .range key value define source => do
    let source ← expr 0 indent source
    .ok (rangeText key value define source)
termination_by structural clause

/-- A statement of a loop header after a separator, if there is one. -/
def headerText (indent : Nat) (separator : String) (s : Option Stmt) : Except Fault String :=
  match s with
  | none => .ok ""
  | some s => do
    let s ← stmt (.header indent) s
    .ok (separator ++ s)
termination_by structural s

/-- The condition of a three-part loop header, if there is one. -/
def conditionText (indent : Nat) (condition : Option Expr) : Except Fault String :=
  match condition with
  | none => .ok ""
  | some test => do
    let test ← expr 0 indent test
    .ok (" " ++ test)
termination_by structural condition
end

end Desugar.Emit
