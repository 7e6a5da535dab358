import Desugar.Dispatch
import Desugar.Proofs.Tree.Nodes
import Desugar.Proofs.Tree.Occurrence

/-!
# Lexical scope of bound names

What a receive means depends on the innermost declaration of its name that is visible at its place.
A declaration is visible from the end of its own statement to the end of the block, branch, loop or
function literal that it belongs to. `Visible` lists the declarations that are visible at a place,
and the judgement `Redirected` with those beside it says what the code at a place becomes: a receive
from a name that stands for the state of a go-binding is a read of the state, a go-binding is what
its dispatch emits, and everything else is left as it is, up to its parts.

- `Stmt.declares` and `Clause.declares`: the declarations of a statement and of a loop header.
- `Dispatch.Redirected` and the judgements beside it: one for each kind of tree.
- `Dispatch.Redirected.receive_eq`: what the judgement says of a receive from a name.
- `Node.hasPlainHeader`: loop headers that bind no task and whose post statement declares nothing.
-/

namespace Desugar

/-- What a name is declared as. -/
inductive Declared where
  /-- The state of a go-binding. -/
  | task
  /-- Any other value. -/
  | plain
deriving DecidableEq

/-- The declarations that are visible at a place, the innermost first. -/
abbrev Visible := List (String × Declared)

/-- The innermost declaration of the name is a go-binding. -/
def Visible.IsTask (Γ : Visible) (name : String) : Prop := Γ.lookup name = some .task

/-- The declarations of plain values. -/
def Visible.plain (names : List String) : Visible := names.map (·, .plain)

/-- The declarations that a statement makes for what follows it. -/
def Stmt.declares : Stmt → Visible
  | .bind names _ _ => ((names.filter fun name => !name.isBlank).map (·.name)).map (·, .task)
  | .assign targets .define _ _ => .plain (targets.filterMap Expr.asName?)
  | .var names _ _ _ => .plain (names.map (·.name))
  | _ => []

/-- The declarations of an optional statement. -/
def Stmt.declaresOption : Option Stmt → Visible
  | none => []
  | some stmt => stmt.declares

/-- The declarations that a loop header makes for the loop. -/
def Clause.declares : Clause → Visible
  | .three first _ _ => Stmt.declaresOption first
  | .range key value true _ => .plain ((key.toList ++ value.toList).map (·.name))
  | _ => []

mutual
/-- The statement is a go-binding or has one in it, outside function literals. -/
def Stmt.binds (stmt : Stmt) : Bool :=
  match stmt with
  | .bind _ _ _ => true
  | .cond branch => branch.binds
  | .loop clause body _ => clause.binds || body.binds
  | .block body => body.binds
  | .var _ _ _ _ | .assign _ _ _ _ | .expr _ | .ret _ _ | .throw _ _ | .go _ _ | .defer _ _
  | .breakLoop _ | .continueLoop _ => false
termination_by structural stmt

/-- A statement of the list has a go-binding outside function literals. -/
def Stmt.bindsList (stmts : List Stmt) : Bool :=
  match stmts with
  | [] => false
  | stmt :: rest => stmt.binds || Stmt.bindsList rest
termination_by structural stmts

/-- The statement, if any, has a go-binding outside function literals. -/
def Stmt.bindsOption (stmt : Option Stmt) : Bool :=
  match stmt with
  | none => false
  | some stmt => stmt.binds
termination_by structural stmt

/-- The block has a go-binding outside function literals. -/
def Block.binds (block : Block) : Bool :=
  match block with
  | ⟨stmts, _⟩ => Stmt.bindsList stmts
termination_by structural block

/-- The conditional has a go-binding outside function literals. -/
def If.binds (branch : If) : Bool :=
  match branch with
  | ⟨_, thenBlock, otherwise, _⟩ => thenBlock.binds || otherwise.binds
termination_by structural branch

/-- What follows a failed condition has a go-binding outside function literals. -/
def Else.binds (otherwise : Else) : Bool :=
  match otherwise with
  | .none => false
  | .block body => body.binds
  | .elseIf branch => branch.binds
termination_by structural otherwise

/-- The loop header has a go-binding outside function literals. -/
def Clause.binds (clause : Clause) : Bool :=
  match clause with
  | .three first _ post => Stmt.bindsOption first || Stmt.bindsOption post
  | .infinite | .condition _ | .range _ _ _ _ => false
termination_by structural clause
end

/-- The declarations of the post statement of a loop header. -/
def Clause.postDeclares : Clause → Visible
  | .three _ _ post => Stmt.declaresOption post
  | _ => []

/-- If the node is a loop, its header has no go-binding and its post statement declares nothing. -/
def Node.hasPlainHeader : Node → Bool
  | .stmt (.loop clause _ _) => !clause.binds && clause.postDeclares.isEmpty
  | _ => true

namespace Dispatch

/-- The statements run a go-binding of a call: they are what its dispatch emits, and its callee and
its arguments stand in them as they are. -/
structure Launches (cx : Context) (names : List Ident) (call : Expr) (span : Span)
    (code : List Stmt) : Prop where
  dispatched : ∃ supply, (dispatch cx names call span supply).notes.faults = [] ∧
    (dispatch cx names call span supply).code = code
  operands : ∀ e ∈ call.parts, .expr e ∈ Stmt.nodesList code

mutual
/-- `Redirected cx Γ e e'`: where the declarations `Γ` are visible, `e` becomes `e'`. -/
inductive Redirected (cx : Context) : Visible → Expr → Expr → Prop
  | ident {Γ name span} : Redirected cx Γ (.ident name span) (.ident name span)
  | lit {Γ value span} : Redirected cx Γ (.lit value span) (.lit value span)
  | ofType {Γ ty span} : Redirected cx Γ (.ofType ty span) (.ofType ty span)
  /-- A receive from the state of a go-binding reads the state. -/
  | task {Γ name nameSpan span} : Γ.IsTask name →
      Redirected cx Γ (.unary .receive (.ident name nameSpan) span)
        (.call (.selector (.ident name nameSpan) "get" .nowhere) [] span)
  /-- Any other operator, and any other receive, stays. -/
  | unary {Γ op operand operand' span} :
      (op = .receive → ∀ name ∈ operand.asName?, ¬ Γ.IsTask name) →
      Redirected cx Γ operand operand' →
      Redirected cx Γ (.unary op operand span) (.unary op operand' span)
  | binary {Γ op left left' right right' span} :
      Redirected cx Γ left left' → Redirected cx Γ right right' →
      Redirected cx Γ (.binary op left right span) (.binary op left' right' span)
  | call {Γ callee callee' args args' span} :
      Redirected cx Γ callee callee' → RedirectedList cx Γ args args' →
      Redirected cx Γ (.call callee args span) (.call callee' args' span)
  | template {Γ segments segments' span} : RedirectedSegments cx Γ segments segments' →
      Redirected cx Γ (.template segments span) (.template segments' span)
  | attempt {Γ operand operand' span} : Redirected cx Γ operand operand' →
      Redirected cx Γ (.attempt operand span) (.attempt operand' span)
  | selector {Γ base base' field span} : Redirected cx Γ base base' →
      Redirected cx Γ (.selector base field span) (.selector base' field span)
  | index {Γ base base' key key' span} :
      Redirected cx Γ base base' → Redirected cx Γ key key' →
      Redirected cx Γ (.index base key span) (.index base' key' span)
  | composite {Γ ty elements elements' span} : RedirectedElements cx Γ elements elements' →
      Redirected cx Γ (.composite ty elements span) (.composite ty elements' span)
  /-- The parameters of a function literal are declared for its body. -/
  | func {Γ params returns body body' span} :
      RedirectedBlock cx (.plain (params.map (·.name)) ++ Γ) body body' →
      Redirected cx Γ (.func params returns body span) (.func params returns body' span)

inductive RedirectedList (cx : Context) : Visible → List Expr → List Expr → Prop
  | nil {Γ} : RedirectedList cx Γ [] []
  | cons {Γ e e' rest rest'} : Redirected cx Γ e e' → RedirectedList cx Γ rest rest' →
      RedirectedList cx Γ (e :: rest) (e' :: rest')

inductive RedirectedOption (cx : Context) : Visible → Option Expr → Option Expr → Prop
  | none {Γ} : RedirectedOption cx Γ none none
  | some {Γ e e'} : Redirected cx Γ e e' → RedirectedOption cx Γ (some e) (some e')

inductive RedirectedSegments (cx : Context) : Visible → List Segment → List Segment → Prop
  | nil {Γ} : RedirectedSegments cx Γ [] []
  | text {Γ value rest rest'} : RedirectedSegments cx Γ rest rest' →
      RedirectedSegments cx Γ (.text value :: rest) (.text value :: rest')
  | embed {Γ value value' verb span rest rest'} :
      Redirected cx Γ value value' → RedirectedSegments cx Γ rest rest' →
      RedirectedSegments cx Γ (.embed value verb span :: rest) (.embed value' verb span :: rest')

inductive RedirectedElements (cx : Context) : Visible → List Element → List Element → Prop
  | nil {Γ} : RedirectedElements cx Γ [] []
  | cons {Γ key key' value value' rest rest'} :
      RedirectedOption cx Γ key key' → Redirected cx Γ value value' →
      RedirectedElements cx Γ rest rest' →
      RedirectedElements cx Γ (⟨key, value⟩ :: rest) (⟨key', value'⟩ :: rest')

inductive RedirectedBlock (cx : Context) : Visible → Block → Block → Prop
  | mk {Γ stmts code span} : RedirectedStmts cx Γ stmts code →
      RedirectedBlock cx Γ ⟨stmts, span⟩ ⟨code, span⟩

/-- A statement is judged with the declarations of those before it. -/
inductive RedirectedStmts (cx : Context) : Visible → List Stmt → List Stmt → Prop
  | nil {Γ} : RedirectedStmts cx Γ [] []
  | cons {Γ stmt code rest code'} : RedirectedStmt cx Γ stmt code →
      RedirectedStmts cx (stmt.declares ++ Γ) rest code' →
      RedirectedStmts cx Γ (stmt :: rest) (code ++ code')

/-- A statement becomes a list of statements, and a single one unless it is a go-binding. -/
inductive RedirectedStmt (cx : Context) : Visible → Stmt → List Stmt → Prop
  | bind {Γ names call call' span code} :
      Redirected cx Γ call call' → Launches cx names call' span code →
      RedirectedStmt cx Γ (.bind names call span) code
  | var {Γ names ty values values' span} : RedirectedList cx Γ values values' →
      RedirectedStmt cx Γ (.var names ty values span) [.var names ty values' span]
  | assign {Γ targets targets' op values values' span} :
      RedirectedList cx Γ targets targets' → RedirectedList cx Γ values values' →
      RedirectedStmt cx Γ (.assign targets op values span) [.assign targets' op values' span]
  | expr {Γ value value'} : Redirected cx Γ value value' →
      RedirectedStmt cx Γ (.expr value) [.expr value']
  | ret {Γ values values' span} : RedirectedList cx Γ values values' →
      RedirectedStmt cx Γ (.ret values span) [.ret values' span]
  | throw {Γ value value' span} : Redirected cx Γ value value' →
      RedirectedStmt cx Γ (.throw value span) [.throw value' span]
  | go {Γ call call' span} : Redirected cx Γ call call' →
      RedirectedStmt cx Γ (.go call span) [.go call' span]
  | defer {Γ call call' span} : Redirected cx Γ call call' →
      RedirectedStmt cx Γ (.defer call span) [.defer call' span]
  | cond {Γ branch branch'} : RedirectedIf cx Γ branch branch' →
      RedirectedStmt cx Γ (.cond branch) [.cond branch']
  /-- The declarations of a loop header hold for the loop only. -/
  | loop {Γ clause clause' body body' span} : RedirectedClause cx Γ clause clause' →
      RedirectedBlock cx (clause.declares ++ Γ) body body' →
      RedirectedStmt cx Γ (.loop clause body span) [.loop clause' body' span]
  | block {Γ body body'} : RedirectedBlock cx Γ body body' →
      RedirectedStmt cx Γ (.block body) [.block body']
  | breakLoop {Γ span} : RedirectedStmt cx Γ (.breakLoop span) [.breakLoop span]
  | continueLoop {Γ span} : RedirectedStmt cx Γ (.continueLoop span) [.continueLoop span]

inductive RedirectedIf (cx : Context) : Visible → If → If → Prop
  | mk {Γ condition condition' thenBlock thenBlock' otherwise otherwise' span} :
      Redirected cx Γ condition condition' → RedirectedBlock cx Γ thenBlock thenBlock' →
      RedirectedElse cx Γ otherwise otherwise' →
      RedirectedIf cx Γ ⟨condition, thenBlock, otherwise, span⟩
        ⟨condition', thenBlock', otherwise', span⟩

inductive RedirectedElse (cx : Context) : Visible → Else → Else → Prop
  | none {Γ} : RedirectedElse cx Γ .none .none
  | block {Γ body body'} : RedirectedBlock cx Γ body body' →
      RedirectedElse cx Γ (.block body) (.block body')
  | elseIf {Γ branch branch'} : RedirectedIf cx Γ branch branch' →
      RedirectedElse cx Γ (.elseIf branch) (.elseIf branch')

/-- The condition and the post statement of a loop are in the scope of its first statement. -/
inductive RedirectedClause (cx : Context) : Visible → Clause → Clause → Prop
  | infinite {Γ} : RedirectedClause cx Γ .infinite .infinite
  | condition {Γ test test'} : Redirected cx Γ test test' →
      RedirectedClause cx Γ (.condition test) (.condition test')
  | three {Γ first first' condition condition' post post'} :
      RedirectedHeader cx Γ first first' →
      RedirectedOption cx (Stmt.declaresOption first ++ Γ) condition condition' →
      RedirectedHeader cx (Stmt.declaresOption first ++ Γ) post post' →
      RedirectedClause cx Γ (.three first condition post) (.three first' condition' post')
  | range {Γ key value define source source'} : Redirected cx Γ source source' →
      RedirectedClause cx Γ (.range key value define source) (.range key value define source')

/-- A statement of a loop header stays a single statement. -/
inductive RedirectedHeader (cx : Context) : Visible → Option Stmt → Option Stmt → Prop
  | none {Γ} : RedirectedHeader cx Γ none none
  | some {Γ stmt stmt'} : RedirectedStmt cx Γ stmt [stmt'] →
      RedirectedHeader cx Γ (some stmt) (some stmt')
end

/-- A receive from a name becomes a read exactly if the innermost declaration of the name is a
go-binding, and otherwise it stays. -/
theorem Redirected.receive_eq {cx : Context} {Γ : Visible} {name : String} {nameSpan span : Span}
    {e' : Expr} (h : Redirected cx Γ (.unary .receive (.ident name nameSpan) span) e') :
    (Γ.IsTask name ∧ e' = .call (.selector (.ident name nameSpan) "get" .nowhere) [] span) ∨
      (¬ Γ.IsTask name ∧ e' = .unary .receive (.ident name nameSpan) span) := by
  cases h with
  | task htask => exact .inl ⟨htask, rfl⟩
  | unary hplain hoperand =>
    cases hoperand
    exact .inr ⟨hplain rfl name rfl, rfl⟩

end Dispatch

end Desugar
