import Desugar.Tree.Visit

/-!
# The nodes of a tree

`Expr.nodes e` lists every expression and every statement of `e`, at any depth and inside function
literals, and the functions beside it do the same for every other kind of tree. What holds of a
whole program is stated as a property of all its nodes; the list of a tree is put together from
those of its parts, so such a property splits along `List.forall_mem_append`.

- `Node.names`: the names that a node has by itself.
- `Block.mem_visit` says that the expressions among the nodes are those that a walk into every
  function literal visits.
-/

namespace Desugar

/-- A node of a tree. -/
inductive Node where
  | expr (e : Expr)
  | stmt (s : Stmt)

/-- The names that a node declares or mentions by itself. -/
def Node.names : Node → List String
  | .expr (.ident x _) => [x]
  | .expr (.func params _ _ _) => params.map (·.name)
  | .stmt (.var names _ _ _) => names.map (·.name)
  | .stmt (.bind names _ _) => names.map (·.name)
  | .stmt (.loop (.range key value _ _) _ _) => (key.toList ++ value.toList).map (·.name)
  | _ => []

mutual
/-- The nodes of an expression, the expression itself first. -/
def Expr.nodes (e : Expr) : List Node :=
  match e with
  | .ident name span => [.expr (.ident name span)]
  | .lit value span => [.expr (.lit value span)]
  | .call callee args span =>
    .expr (.call callee args span) :: (callee.nodes ++ Expr.nodesList args)
  | .template segments span => .expr (.template segments span) :: Segment.nodesList segments
  | .attempt operand span => .expr (.attempt operand span) :: operand.nodes
  | .binary op left right span =>
    .expr (.binary op left right span) :: (left.nodes ++ right.nodes)
  | .unary op operand span => .expr (.unary op operand span) :: operand.nodes
  | .selector base field span => .expr (.selector base field span) :: base.nodes
  | .index base index span => .expr (.index base index span) :: (base.nodes ++ index.nodes)
  | .composite ty elements span =>
    .expr (.composite ty elements span) :: Element.nodesList elements
  | .func params returns body span => .expr (.func params returns body span) :: body.nodes
  | .ofType ty span => [.expr (.ofType ty span)]
termination_by structural e

/-- The nodes of a list of expressions. -/
def Expr.nodesList (es : List Expr) : List Node :=
  match es with
  | [] => []
  | e :: rest => e.nodes ++ Expr.nodesList rest
termination_by structural es

/-- The nodes of an optional expression. -/
def Expr.nodesOption (e : Option Expr) : List Node :=
  match e with
  | none => []
  | some e => e.nodes
termination_by structural e

/-- The nodes of a template. -/
def Segment.nodesList (segments : List Segment) : List Node :=
  match segments with
  | [] => []
  | .text _ :: rest => Segment.nodesList rest
  | .embed value _ _ :: rest => value.nodes ++ Segment.nodesList rest
termination_by structural segments

/-- The nodes of a composite literal. -/
def Element.nodesList (elements : List Element) : List Node :=
  match elements with
  | [] => []
  | ⟨key, value⟩ :: rest => Expr.nodesOption key ++ value.nodes ++ Element.nodesList rest
termination_by structural elements

/-- The nodes of a block. -/
def Block.nodes (block : Block) : List Node :=
  match block with
  | ⟨stmts, _⟩ => Stmt.nodesList stmts
termination_by structural block

/-- The nodes of a list of statements. -/
def Stmt.nodesList (stmts : List Stmt) : List Node :=
  match stmts with
  | [] => []
  | stmt :: rest => stmt.nodes ++ Stmt.nodesList rest
termination_by structural stmts

/-- The nodes of a statement, the statement itself first. -/
def Stmt.nodes (stmt : Stmt) : List Node :=
  match stmt with
  | .var names ty values span => .stmt (.var names ty values span) :: Expr.nodesList values
  | .assign targets op values span =>
    .stmt (.assign targets op values span) :: (Expr.nodesList targets ++ Expr.nodesList values)
  | .expr value => .stmt (.expr value) :: value.nodes
  | .ret values span => .stmt (.ret values span) :: Expr.nodesList values
  | .cond branch => .stmt (.cond branch) :: branch.nodes
  | .loop clause body span => .stmt (.loop clause body span) :: (clause.nodes ++ body.nodes)
  | .throw value span => .stmt (.throw value span) :: value.nodes
  | .bind names call span => .stmt (.bind names call span) :: call.nodes
  | .go call span => .stmt (.go call span) :: call.nodes
  | .defer call span => .stmt (.defer call span) :: call.nodes
  | .breakLoop span => [.stmt (.breakLoop span)]
  | .continueLoop span => [.stmt (.continueLoop span)]
  | .block body => .stmt (.block body) :: body.nodes
termination_by structural stmt

/-- The nodes of an optional statement. -/
def Stmt.nodesOption (stmt : Option Stmt) : List Node :=
  match stmt with
  | none => []
  | some stmt => stmt.nodes
termination_by structural stmt

/-- The nodes of a conditional. -/
def If.nodes (branch : If) : List Node :=
  match branch with
  | ⟨condition, thenBlock, otherwise, _⟩ => condition.nodes ++ thenBlock.nodes ++ otherwise.nodes
termination_by structural branch

/-- The nodes of what follows a failed condition. -/
def Else.nodes (otherwise : Else) : List Node :=
  match otherwise with
  | .none => []
  | .block body => body.nodes
  | .elseIf branch => branch.nodes
termination_by structural otherwise

/-- The nodes of a loop header. -/
def Clause.nodes (clause : Clause) : List Node :=
  match clause with
  | .infinite => []
  | .condition test => test.nodes
  | .three first condition post =>
    Stmt.nodesOption first ++ Expr.nodesOption condition ++ Stmt.nodesOption post
  | .range _ _ _ source => source.nodes
termination_by structural clause
end

/-- An expression is one of its nodes. -/
theorem Expr.mem_nodes_self (e : Expr) : .expr e ∈ e.nodes := by
  cases e <;> simp [Expr.nodes]

theorem Expr.mem_nodesList {e : Expr} {es : List Expr} (h : e ∈ es) :
    .expr e ∈ Expr.nodesList es := by
  induction es with
  | nil => cases h
  | cons e' rest ih =>
    rcases List.mem_cons.mp h with rfl | h
    · exact List.mem_append_left _ e.mem_nodes_self
    · exact List.mem_append_right _ (ih h)

/-- The nodes of statements are listed in order. -/
theorem Stmt.nodesList_append (before after : List Stmt) :
    Stmt.nodesList (before ++ after) = Stmt.nodesList before ++ Stmt.nodesList after := by
  induction before with
  | nil => rfl
  | cons stmt rest ih => simp [Stmt.nodesList, ih]

mutual
/-- The expressions of an expression are its nodes that are expressions. -/
theorem Expr.mem_visit (x : Expr) : ∀ e : Expr, x ∈ (e.visit fun _ => true) ↔ .expr x ∈ e.nodes
  | .ident _ _ => by simp [Expr.visit, Expr.nodes]
  | .lit _ _ => by simp [Expr.visit, Expr.nodes]
  | .call callee args _ => by
    simp [Expr.visit, Expr.nodes, visited, Expr.mem_visit x callee, Expr.mem_visitList x args]
  | .template segments _ => by
    simp [Expr.visit, Expr.nodes, visited, Segment.mem_visitList x segments]
  | .attempt operand _ => by simp [Expr.visit, Expr.nodes, visited, Expr.mem_visit x operand]
  | .binary _ left right _ => by
    simp [Expr.visit, Expr.nodes, visited, Expr.mem_visit x left, Expr.mem_visit x right]
  | .unary _ operand _ => by simp [Expr.visit, Expr.nodes, visited, Expr.mem_visit x operand]
  | .selector base _ _ => by simp [Expr.visit, Expr.nodes, visited, Expr.mem_visit x base]
  | .index base index _ => by
    simp [Expr.visit, Expr.nodes, visited, Expr.mem_visit x base, Expr.mem_visit x index]
  | .composite _ elements _ => by
    simp [Expr.visit, Expr.nodes, visited, Element.mem_visitList x elements]
  | .func _ _ body _ => by simp [Expr.visit, Expr.nodes, visited, Block.mem_visit x body]
  | .ofType _ _ => by simp [Expr.visit, Expr.nodes]

theorem Expr.mem_visitList (x : Expr) :
    ∀ es : List Expr, x ∈ Expr.visitList (fun _ => true) es ↔ .expr x ∈ Expr.nodesList es
  | [] => by simp [Expr.visitList, Expr.nodesList]
  | e :: rest => by
    simp [Expr.visitList, Expr.nodesList, Expr.mem_visit x e, Expr.mem_visitList x rest]

theorem Expr.mem_visitOption (x : Expr) :
    ∀ e : Option Expr, x ∈ Expr.visitOption (fun _ => true) e ↔ .expr x ∈ Expr.nodesOption e
  | none => by simp [Expr.visitOption, Expr.nodesOption]
  | some e => by simp [Expr.visitOption, Expr.nodesOption, Expr.mem_visit x e]

theorem Segment.mem_visitList (x : Expr) :
    ∀ segments : List Segment, x ∈ Segment.visitList (fun _ => true) segments ↔
      .expr x ∈ Segment.nodesList segments
  | [] => by simp [Segment.visitList, Segment.nodesList]
  | .text _ :: rest => by simp [Segment.visitList, Segment.nodesList, Segment.mem_visitList x rest]
  | .embed value _ _ :: rest => by
    simp [Segment.visitList, Segment.nodesList, Expr.mem_visit x value,
      Segment.mem_visitList x rest]

theorem Element.mem_visitList (x : Expr) :
    ∀ elements : List Element, x ∈ Element.visitList (fun _ => true) elements ↔
      .expr x ∈ Element.nodesList elements
  | [] => by simp [Element.visitList, Element.nodesList]
  | ⟨key, value⟩ :: rest => by
    simp [Element.visitList, Element.nodesList, Expr.mem_visitOption x key, Expr.mem_visit x value,
      Element.mem_visitList x rest]

theorem Block.mem_visit (x : Expr) :
    ∀ block : Block, x ∈ (block.visit fun _ => true) ↔ .expr x ∈ block.nodes
  | ⟨stmts, _⟩ => by simp [Block.visit, Block.nodes, Stmt.mem_visitList x stmts]

theorem Stmt.mem_visitList (x : Expr) :
    ∀ stmts : List Stmt, x ∈ Stmt.visitList (fun _ => true) stmts ↔ .expr x ∈ Stmt.nodesList stmts
  | [] => by simp [Stmt.visitList, Stmt.nodesList]
  | stmt :: rest => by
    simp [Stmt.visitList, Stmt.nodesList, Stmt.mem_visit x stmt, Stmt.mem_visitList x rest]

theorem Stmt.mem_visit (x : Expr) :
    ∀ stmt : Stmt, x ∈ (stmt.visit fun _ => true) ↔ .expr x ∈ stmt.nodes
  | .var _ _ values _ => by simp [Stmt.visit, Stmt.nodes, Expr.mem_visitList x values]
  | .assign targets _ values _ => by
    simp [Stmt.visit, Stmt.nodes, Expr.mem_visitList x targets, Expr.mem_visitList x values]
  | .expr value => by simp [Stmt.visit, Stmt.nodes, Expr.mem_visit x value]
  | .ret values _ => by simp [Stmt.visit, Stmt.nodes, Expr.mem_visitList x values]
  | .cond branch => by simp [Stmt.visit, Stmt.nodes, If.mem_visit x branch]
  | .loop clause body _ => by
    simp [Stmt.visit, Stmt.nodes, Clause.mem_visit x clause, Block.mem_visit x body]
  | .throw value _ => by simp [Stmt.visit, Stmt.nodes, Expr.mem_visit x value]
  | .bind _ call _ => by simp [Stmt.visit, Stmt.nodes, Expr.mem_visit x call]
  | .go call _ => by simp [Stmt.visit, Stmt.nodes, Expr.mem_visit x call]
  | .defer call _ => by simp [Stmt.visit, Stmt.nodes, Expr.mem_visit x call]
  | .breakLoop _ => by simp [Stmt.visit, Stmt.nodes]
  | .continueLoop _ => by simp [Stmt.visit, Stmt.nodes]
  | .block body => by simp [Stmt.visit, Stmt.nodes, Block.mem_visit x body]

theorem Stmt.mem_visitOption (x : Expr) :
    ∀ stmt : Option Stmt, x ∈ Stmt.visitOption (fun _ => true) stmt ↔
      .expr x ∈ Stmt.nodesOption stmt
  | none => by simp [Stmt.visitOption, Stmt.nodesOption]
  | some stmt => by simp [Stmt.visitOption, Stmt.nodesOption, Stmt.mem_visit x stmt]

theorem If.mem_visit (x : Expr) :
    ∀ branch : If, x ∈ (branch.visit fun _ => true) ↔ .expr x ∈ branch.nodes
  | ⟨condition, thenBlock, otherwise, _⟩ => by
    simp [If.visit, If.nodes, Expr.mem_visit x condition, Block.mem_visit x thenBlock,
      Else.mem_visit x otherwise]

theorem Else.mem_visit (x : Expr) :
    ∀ otherwise : Else, x ∈ (otherwise.visit fun _ => true) ↔ .expr x ∈ otherwise.nodes
  | .none => by simp [Else.visit, Else.nodes]
  | .block body => by simp [Else.visit, Else.nodes, Block.mem_visit x body]
  | .elseIf branch => by simp [Else.visit, Else.nodes, If.mem_visit x branch]

theorem Clause.mem_visit (x : Expr) :
    ∀ clause : Clause, x ∈ (clause.visit fun _ => true) ↔ .expr x ∈ clause.nodes
  | .infinite => by simp [Clause.visit, Clause.nodes]
  | .condition test => by simp [Clause.visit, Clause.nodes, Expr.mem_visit x test]
  | .three first condition post => by
    simp [Clause.visit, Clause.nodes, Stmt.mem_visitOption x first,
      Expr.mem_visitOption x condition, Stmt.mem_visitOption x post]
  | .range _ _ _ source => by simp [Clause.visit, Clause.nodes, Expr.mem_visit x source]
end

end Desugar
