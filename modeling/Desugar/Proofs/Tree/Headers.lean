import Mathlib.Data.Bool.Basic
import Mathlib.Order.BooleanAlgebra.Basic
import Desugar.Proofs.Tree.Bindings
import Desugar.Proofs.ValueTypes

/-!
# Go-bindings in loop headers

A loop header has room for a single statement, so a go-binding that is the first or the post
statement of a loop cannot be lowered. Whether such a header is looked at depends on the search for
other go-bindings: a body in which `Block.hasBinding` finds none is passed by, be it that of a
function or of a function literal.

- `Block.steps`: the statements of a body, outside loop headers and function literals.
- `Block.bodies`: a body and those of the function literals in it.
- `Block.placed`: every statement of a body is a step of one of its bodies or in a loop header
  (`Stmt.InHeader`). Go-bindings that the search does not find are thus in headers, see
  `Block.inHeader_of_hasBinding_eq_false`.
- `Block.hasStray`: there is a go-binding in a header, in a body that is not passed by.
- `Block.mixes`: a body has go-bindings in headers and elsewhere, so that both are found, see
  `Block.found_of_mixes`.
-/

namespace Desugar

/-! ### Steps and bodies -/

/-- The body of a function literal. -/
def Node.literal? : Node → Option Block
  | .expr (.func _ _ body _) => some body
  | _ => none

/-- The bodies of the function literals among some nodes. -/
def Node.literals (nodes : List Node) : List Block := nodes.filterMap Node.literal?

/-- A body and the bodies of the function literals in it, at any depth. -/
def Block.bodies (body : Block) : List Block := body :: Node.literals body.nodes

mutual
/-- The statements of a block, outside loop headers and function literals. -/
def Block.steps (block : Block) : List Stmt :=
  match block with
  | ⟨stmts, _⟩ => Stmt.stepsList stmts
termination_by structural block

/-- The statements of a list and those inside them. -/
def Stmt.stepsList (stmts : List Stmt) : List Stmt :=
  match stmts with
  | [] => []
  | stmt :: rest => stmt.steps ++ Stmt.stepsList rest
termination_by structural stmts

/-- A statement and the statements inside it. -/
def Stmt.steps (stmt : Stmt) : List Stmt :=
  match stmt with
  | .cond branch => .cond branch :: branch.steps
  | .loop clause body span => .loop clause body span :: body.steps
  | .block body => .block body :: body.steps
  | stmt => [stmt]
termination_by structural stmt

/-- The statements inside a conditional. -/
def If.steps (branch : If) : List Stmt :=
  match branch with
  | ⟨_, thenBlock, otherwise, _⟩ => thenBlock.steps ++ otherwise.steps
termination_by structural branch

/-- The statements of what follows a failed condition. -/
def Else.steps (otherwise : Else) : List Stmt :=
  match otherwise with
  | .none => []
  | .block body => body.steps
  | .elseIf branch => branch.steps
termination_by structural otherwise
end

/-- The statement is a go-binding. -/
def Stmt.isBind : Stmt → Bool
  | .bind _ _ _ => true
  | _ => false

/-- The statement is a loop whose first or post statement is a go-binding. -/
def Stmt.bindsInHeader : Stmt → Bool
  | .loop (.three first _ post) _ _ => first.any Stmt.isBind || post.any Stmt.isBind
  | _ => false

/-! ### Where statements stand -/

/-- The statement is the first or the post statement of a loop, or inside it. -/
def Stmt.InHeader (nodes : List Node) (stmt : Stmt) : Prop :=
  ∃ first condition post body span,
    .stmt (.loop (.three first condition post) body span) ∈ nodes ∧
      ∃ header, (first = some header ∨ post = some header) ∧ stmt ∈ header.steps

/-- Each statement among the nodes is one of `own`, a step of a function literal, or in a loop
header. -/
def Placed (own : List Stmt) (nodes : List Node) : Prop :=
  ∀ stmt, .stmt stmt ∈ nodes →
    stmt ∈ own ∨ (∃ body ∈ Node.literals nodes, stmt ∈ body.steps) ∨ stmt.InHeader nodes

namespace Placed

variable {own own' : List Stmt} {nodes nodes' : List Node}

theorem nil : Placed own [] := by
  intro stmt hstmt
  cases hstmt

/-- What holds among some nodes holds among more of them. -/
theorem among (h : Placed own nodes) (hsub : nodes ⊆ nodes') {stmt : Stmt}
    (hstmt : .stmt stmt ∈ nodes) :
    stmt ∈ own ∨ (∃ body ∈ Node.literals nodes', stmt ∈ body.steps) ∨ stmt.InHeader nodes' := by
  refine (h stmt hstmt).imp_right (Or.imp ?_ ?_)
  · rintro ⟨body, hbody, hstep⟩
    exact ⟨body, List.filterMap_subset _ hsub hbody, hstep⟩
  · rintro ⟨first, condition, post, body, span, hloop, hheader⟩
    exact ⟨first, condition, post, body, span, hsub hloop, hheader⟩

/-- Statements are placed in parts that are put together. -/
theorem append (h : Placed own nodes) (h' : Placed own' nodes') :
    Placed (own ++ own') (nodes ++ nodes') := by
  intro stmt hstmt
  rcases List.mem_append.mp hstmt with hstmt | hstmt
  · refine (h.among (List.subset_append_left _ _) hstmt).imp_left fun hown => ?_
    exact List.mem_append_left _ hown
  · refine (h'.among (List.subset_append_right _ _) hstmt).imp_left fun hown => ?_
    exact List.mem_append_right _ hown

/-- An expression adds no statement. -/
theorem expr (e : Expr) (h : Placed own nodes) : Placed own (.expr e :: nodes) := by
  intro stmt hstmt
  rcases List.mem_cons.mp hstmt with heq | hstmt
  · cases heq
  · exact h.among (List.subset_cons_self _ _) hstmt

/-- The steps of a function literal are not those of the body that it stands in. -/
theorem func {params : List Param} {returns : Option Ty} {body : Block} {span : Span}
    (h : Placed body.steps body.nodes) :
    Placed [] (.expr (.func params returns body span) :: body.nodes) := by
  intro stmt hstmt
  rcases List.mem_cons.mp hstmt with heq | hstmt
  · cases heq
  · rcases h.among (List.subset_cons_self _ _) hstmt with hstep | hplaced
    · exact .inr (.inl ⟨body, List.mem_cons_self, hstep⟩)
    · exact .inr hplaced

/-- A statement is one of the steps. -/
theorem stmt (s : Stmt) (h : Placed own nodes) : Placed (s :: own) (.stmt s :: nodes) := by
  intro stmt hstmt
  rcases List.mem_cons.mp hstmt with heq | hstmt
  · cases heq
    exact .inl List.mem_cons_self
  · refine (h.among (List.subset_cons_self _ _) hstmt).imp_left fun hown => ?_
    exact List.mem_cons_of_mem _ hown

/-- The steps of the first and of the post statement of a loop are in its header. -/
theorem loop {first post : Option Stmt} {condition : Option Expr} {body : Block} {span : Span}
    (h : Placed (first.elim [] Stmt.steps ++ [] ++ post.elim [] Stmt.steps ++ body.steps)
      ((Clause.three first condition post).nodes ++ body.nodes)) :
    Placed (Stmt.loop (.three first condition post) body span).steps
      (Stmt.loop (.three first condition post) body span).nodes := by
  intro stmt hstmt
  have hinHeader {part : Option Stmt} (hstep : stmt ∈ part.elim [] Stmt.steps)
      (hpart : ∀ header, part = some header → first = some header ∨ post = some header) :
      stmt.InHeader (Stmt.loop (.three first condition post) body span).nodes := by
    cases part with
    | none => cases hstep
    | some header =>
      refine ⟨first, condition, post, body, span, List.mem_cons_self, header, ?_, hstep⟩
      exact hpart header rfl
  rcases List.mem_cons.mp hstmt with heq | hstmt
  · cases heq
    exact .inl List.mem_cons_self
  · rcases h.among (List.subset_cons_self _ _) hstmt with hown | hplaced
    · simp only [List.append_nil, List.mem_append] at hown
      rcases hown with (hstep | hstep) | hstep
      · exact .inr (.inr (hinHeader hstep fun _ => .inl))
      · exact .inr (.inr (hinHeader hstep fun _ => .inr))
      · exact .inl (List.mem_cons_of_mem _ hstep)
    · exact .inr hplaced

end Placed

mutual
/-- Every statement of a tree is a step of it or of a function literal, or stands in a loop header.
-/
theorem Expr.placed : ∀ e : Expr, Placed [] e.nodes
  | .ident _ _ => .expr _ .nil
  | .lit _ _ => .expr _ .nil
  | .ofType _ _ => .expr _ .nil
  | .call callee args _ => .expr _ ((Expr.placed callee).append (Expr.placedList args))
  | .template segments _ => .expr _ (Segment.placedList segments)
  | .attempt operand _ => .expr _ (Expr.placed operand)
  | .binary _ left right _ => .expr _ ((Expr.placed left).append (Expr.placed right))
  | .unary _ operand _ => .expr _ (Expr.placed operand)
  | .selector base _ _ => .expr _ (Expr.placed base)
  | .index base index _ => .expr _ ((Expr.placed base).append (Expr.placed index))
  | .composite _ elements _ => .expr _ (Element.placedList elements)
  | .func _ _ body _ => .func (Block.placed body)

theorem Expr.placedList : ∀ es : List Expr, Placed [] (Expr.nodesList es)
  | [] => .nil
  | e :: rest => (Expr.placed e).append (Expr.placedList rest)

theorem Expr.placedOption : ∀ e : Option Expr, Placed [] (Expr.nodesOption e)
  | none => .nil
  | some e => Expr.placed e

theorem Segment.placedList : ∀ segments : List Segment, Placed [] (Segment.nodesList segments)
  | [] => .nil
  | .text _ :: rest => Segment.placedList rest
  | .embed value _ _ :: rest => (Expr.placed value).append (Segment.placedList rest)

theorem Element.placedList : ∀ elements : List Element, Placed [] (Element.nodesList elements)
  | [] => .nil
  | ⟨key, value⟩ :: rest =>
    ((Expr.placedOption key).append (Expr.placed value)).append (Element.placedList rest)

/-- A statement of a block is one of its steps, a step of a function literal in it, or in a loop
header. -/
theorem Block.placed : ∀ block : Block, Placed block.steps block.nodes
  | ⟨stmts, _⟩ => Stmt.placedList stmts

theorem Stmt.placedList : ∀ stmts : List Stmt,
    Placed (Stmt.stepsList stmts) (Stmt.nodesList stmts)
  | [] => .nil
  | stmt :: rest => (Stmt.placed stmt).append (Stmt.placedList rest)

theorem Stmt.placed : ∀ stmt : Stmt, Placed stmt.steps stmt.nodes
  | .var _ _ values _ => .stmt _ (Expr.placedList values)
  | .assign targets _ values _ =>
    .stmt _ ((Expr.placedList targets).append (Expr.placedList values))
  | .expr value => .stmt _ (Expr.placed value)
  | .ret values _ => .stmt _ (Expr.placedList values)
  | .cond branch => .stmt _ (If.placed branch)
  | .loop .infinite body _ => .stmt _ (Block.placed body)
  | .loop (.condition test) body _ => .stmt _ ((Expr.placed test).append (Block.placed body))
  | .loop (.three first condition post) body _ =>
    .loop ((((Stmt.placedOption first).append (Expr.placedOption condition)).append
      (Stmt.placedOption post)).append (Block.placed body))
  | .loop (.range _ _ _ source) body _ => .stmt _ ((Expr.placed source).append (Block.placed body))
  | .throw value _ => .stmt _ (Expr.placed value)
  | .bind _ call _ => .stmt _ (Expr.placed call)
  | .go call _ => .stmt _ (Expr.placed call)
  | .defer call _ => .stmt _ (Expr.placed call)
  | .breakLoop _ => .stmt _ .nil
  | .continueLoop _ => .stmt _ .nil
  | .block body => .stmt _ (Block.placed body)

theorem Stmt.placedOption : ∀ stmt : Option Stmt,
    Placed (stmt.elim [] Stmt.steps) (Stmt.nodesOption stmt)
  | none => .nil
  | some stmt => Stmt.placed stmt

theorem If.placed : ∀ branch : If, Placed branch.steps branch.nodes
  | ⟨condition, thenBlock, otherwise, _⟩ =>
    ((Expr.placed condition).append (Block.placed thenBlock)).append (Else.placed otherwise)

theorem Else.placed : ∀ otherwise : Else, Placed otherwise.steps otherwise.nodes
  | .none => .nil
  | .block body => Block.placed body
  | .elseIf branch => If.placed branch
end

/-! ### Headers that are looked at -/

mutual
/-- A function literal of the expression has a go-binding in a loop header that is looked at. -/
def Expr.hasStray (e : Expr) : Bool :=
  match e with
  | .ident _ _ | .lit _ _ | .ofType _ _ => false
  | .call callee args _ => callee.hasStray || Expr.hasStrayList args
  | .template segments _ => Segment.hasStrayList segments
  | .attempt operand _ => operand.hasStray
  | .binary _ left right _ => left.hasStray || right.hasStray
  | .unary _ operand _ => operand.hasStray
  | .selector base _ _ => base.hasStray
  | .index base index _ => base.hasStray || index.hasStray
  | .composite _ elements _ => Element.hasStrayList elements
  | .func _ _ body _ => body.hasBindingIn false && body.hasStray
termination_by structural e

/-- An expression of the list has such a function literal. -/
def Expr.hasStrayList (es : List Expr) : Bool :=
  match es with
  | [] => false
  | e :: rest => e.hasStray || Expr.hasStrayList rest
termination_by structural es

/-- The expression, if any, has such a function literal. -/
def Expr.hasStrayOption (e : Option Expr) : Bool :=
  match e with
  | none => false
  | some e => e.hasStray
termination_by structural e

/-- An embed has such a function literal. -/
def Segment.hasStrayList (segments : List Segment) : Bool :=
  match segments with
  | [] => false
  | .text _ :: rest => Segment.hasStrayList rest
  | .embed value _ _ :: rest => value.hasStray || Segment.hasStrayList rest
termination_by structural segments

/-- A key or value has such a function literal. -/
def Element.hasStrayList (elements : List Element) : Bool :=
  match elements with
  | [] => false
  | ⟨key, value⟩ :: rest =>
    Expr.hasStrayOption key || value.hasStray || Element.hasStrayList rest
termination_by structural elements

/-- The block has a go-binding in a loop header that is looked at if the block is. -/
def Block.hasStray (block : Block) : Bool :=
  match block with
  | ⟨stmts, _⟩ => Stmt.hasStrayList stmts
termination_by structural block

/-- A statement of the list has one. -/
def Stmt.hasStrayList (stmts : List Stmt) : Bool :=
  match stmts with
  | [] => false
  | stmt :: rest => stmt.hasStray || Stmt.hasStrayList rest
termination_by structural stmts

/-- The statement has one. -/
def Stmt.hasStray (stmt : Stmt) : Bool :=
  match stmt with
  | .var _ _ values _ => Expr.hasStrayList values
  | .assign targets _ values _ => Expr.hasStrayList targets || Expr.hasStrayList values
  | .expr value => value.hasStray
  | .ret values _ => Expr.hasStrayList values
  | .cond branch => branch.hasStray
  | .loop clause body _ => clause.hasStray || body.hasStray
  | .throw value _ => value.hasStray
  | .bind _ call _ => call.hasStray
  | .go call _ => call.hasStray
  | .defer call _ => call.hasStray
  | .breakLoop _ | .continueLoop _ => false
  | .block body => body.hasStray
termination_by structural stmt

/-- The statement of a loop header, if any, is a go-binding or has one in a header. -/
def Stmt.hasStrayOption (stmt : Option Stmt) : Bool :=
  match stmt with
  | none => false
  | some (.bind _ _ _) => true
  | some stmt => stmt.hasStray
termination_by structural stmt

/-- The conditional has one. -/
def If.hasStray (branch : If) : Bool :=
  match branch with
  | ⟨condition, thenBlock, otherwise, _⟩ =>
    condition.hasStray || thenBlock.hasStray || otherwise.hasStray
termination_by structural branch

/-- What follows a failed condition has one. -/
def Else.hasStray (otherwise : Else) : Bool :=
  match otherwise with
  | .none => false
  | .block body => body.hasStray
  | .elseIf branch => branch.hasStray
termination_by structural otherwise

/-- The loop header has one. -/
def Clause.hasStray (clause : Clause) : Bool :=
  match clause with
  | .infinite => false
  | .condition test => test.hasStray
  | .three first condition post =>
    Stmt.hasStrayOption first || Expr.hasStrayOption condition || Stmt.hasStrayOption post
  | .range _ _ _ source => source.hasStray
termination_by structural clause
end

/-- What is found in an expression: a go-binding, and one in a loop header. -/
def Expr.found (e : Expr) : Bool × Bool := (e.hasBinding, e.hasStray)

/-- What is found in a list of expressions. -/
def Expr.foundList (es : List Expr) : Bool × Bool := (Expr.hasBindingList es, Expr.hasStrayList es)

/-- What is found in an optional expression. -/
def Expr.foundOption (e : Option Expr) : Bool × Bool :=
  (Expr.hasBindingOption e, Expr.hasStrayOption e)

/-- What is found in a template. -/
def Segment.foundList (segments : List Segment) : Bool × Bool :=
  (Segment.hasBindingList segments, Segment.hasStrayList segments)

/-- What is found in a composite literal. -/
def Element.foundList (elements : List Element) : Bool × Bool :=
  (Element.hasBindingList elements, Element.hasStrayList elements)

/-- What is found in a block. -/
def Block.found (header : Bool) (block : Block) : Bool × Bool :=
  (block.hasBindingIn header, block.hasStray)

/-- What is found in a list of statements. -/
def Stmt.foundList (header : Bool) (stmts : List Stmt) : Bool × Bool :=
  (Stmt.hasBindingInList header stmts, Stmt.hasStrayList stmts)

/-- What is found in a statement. -/
def Stmt.found (header : Bool) (stmt : Stmt) : Bool × Bool :=
  (stmt.hasBindingIn header, stmt.hasStray)

/-- What is found in a statement of a loop header. -/
def Stmt.foundOption (stmt : Option Stmt) : Bool × Bool :=
  (Stmt.hasBindingOption stmt, Stmt.hasStrayOption stmt)

/-- What is found in a conditional. -/
def If.found (header : Bool) (branch : If) : Bool × Bool :=
  (branch.hasBindingIn header, branch.hasStray)

/-- What is found in what follows a failed condition. -/
def Else.found (header : Bool) (otherwise : Else) : Bool × Bool :=
  (otherwise.hasBindingIn header, otherwise.hasStray)

/-- What is found in a loop header. -/
def Clause.found (clause : Clause) : Bool × Bool := (clause.hasBinding, clause.hasStray)

section Parts

variable (header : Bool) (span : Span)

@[simp] theorem Expr.found_call (callee : Expr) (args : List Expr) :
    (Expr.call callee args span).found = callee.found ⊔ Expr.foundList args := rfl

@[simp] theorem Expr.found_binary (op : BinaryOp) (left right : Expr) :
    (Expr.binary op left right span).found = left.found ⊔ right.found := rfl

@[simp] theorem Expr.found_index (base index : Expr) :
    (Expr.index base index span).found = base.found ⊔ index.found := rfl

@[simp] theorem Expr.foundList_nil : Expr.foundList [] = ⊥ := rfl

@[simp] theorem Expr.foundList_cons (e : Expr) (rest : List Expr) :
    Expr.foundList (e :: rest) = e.found ⊔ Expr.foundList rest := rfl

@[simp] theorem Segment.foundList_embed (value : Expr) (verb : Option String)
    (rest : List Segment) : Segment.foundList (.embed value verb span :: rest) =
      value.found ⊔ Segment.foundList rest := rfl

@[simp] theorem Element.foundList_cons (key : Option Expr) (value : Expr) (rest : List Element) :
    Element.foundList (⟨key, value⟩ :: rest) =
      Expr.foundOption key ⊔ value.found ⊔ Element.foundList rest := rfl

@[simp] theorem Stmt.foundList_nil : Stmt.foundList header [] = ⊥ := rfl

@[simp] theorem Stmt.foundList_cons (stmt : Stmt) (rest : List Stmt) :
    Stmt.foundList header (stmt :: rest) = stmt.found header ⊔ Stmt.foundList header rest := rfl

@[simp] theorem Stmt.found_assign (targets : List Expr) (op : AssignOp) (values : List Expr) :
    (Stmt.assign targets op values span).found header =
      Expr.foundList targets ⊔ Expr.foundList values := rfl

@[simp] theorem Stmt.found_loop (clause : Clause) (body : Block) :
    (Stmt.loop clause body span).found header = clause.found ⊔ body.found header := rfl

@[simp] theorem If.found_mk (condition : Expr) (thenBlock : Block) (otherwise : Else) :
    (If.mk condition thenBlock otherwise span).found header =
      condition.found ⊔ thenBlock.found header ⊔ otherwise.found header := rfl

@[simp] theorem Clause.found_three (first post : Option Stmt) (condition : Option Expr) :
    (Clause.three first condition post).found =
      Stmt.foundOption first ⊔ Expr.foundOption condition ⊔ Stmt.foundOption post := rfl

end Parts

/-- The body of a function literal with a go-binding is looked at. -/
theorem Expr.found_func {body : Block} (h : body.hasBinding = true) (params : List Param)
    (returns : Option Ty) (span : Span) :
    (Expr.func params returns body span).found = body.found false := by
  have hfound : (Expr.func params returns body span).found =
      (body.hasBindingIn false, body.hasBindingIn false && body.hasStray) := rfl
  have hbinding : body.hasBindingIn false = true := h
  rw [hfound, Block.found, hbinding, Bool.true_and]

/-- In a loop header, a statement other than a go-binding is looked at like any other. -/
theorem Stmt.foundOption_eq (stmt : Stmt) (h : stmt.isBind = false) :
    Stmt.foundOption (some stmt) = stmt.found true := by
  cases stmt with
  | bind => cases h
  | _ => rfl

mutual
/-- A header that is looked at is in a function literal with another go-binding. -/
theorem Expr.hasBinding_of_hasStray : ∀ e : Expr, e.hasStray = true → e.hasBinding = true
  | .ident _ _, h => by cases h
  | .lit _ _, h => by cases h
  | .ofType _ _, h => by cases h
  | .call callee args _, h => by
    refine Bool.or_eq_true_iff.mpr ((Bool.or_eq_true_iff.mp h).imp ?_ ?_)
    · exact Expr.hasBinding_of_hasStray callee
    · exact Expr.hasBindingList_of_hasStray args
  | .template segments _, h => Segment.hasBindingList_of_hasStray segments h
  | .attempt operand _, h => Expr.hasBinding_of_hasStray operand h
  | .binary _ left right _, h => by
    refine Bool.or_eq_true_iff.mpr ((Bool.or_eq_true_iff.mp h).imp ?_ ?_)
    · exact Expr.hasBinding_of_hasStray left
    · exact Expr.hasBinding_of_hasStray right
  | .unary _ operand _, h => Expr.hasBinding_of_hasStray operand h
  | .selector base _ _, h => Expr.hasBinding_of_hasStray base h
  | .index base index _, h => by
    refine Bool.or_eq_true_iff.mpr ((Bool.or_eq_true_iff.mp h).imp ?_ ?_)
    · exact Expr.hasBinding_of_hasStray base
    · exact Expr.hasBinding_of_hasStray index
  | .composite _ elements _, h => Element.hasBindingList_of_hasStray elements h
  | .func _ _ _ _, h => (Bool.and_eq_true_iff.mp h).1

theorem Expr.hasBindingList_of_hasStray :
    ∀ es : List Expr, Expr.hasStrayList es = true → Expr.hasBindingList es = true
  | [], h => by cases h
  | e :: rest, h => by
    refine Bool.or_eq_true_iff.mpr ((Bool.or_eq_true_iff.mp h).imp ?_ ?_)
    · exact Expr.hasBinding_of_hasStray e
    · exact Expr.hasBindingList_of_hasStray rest

theorem Expr.hasBindingOption_of_hasStray :
    ∀ e : Option Expr, Expr.hasStrayOption e = true → Expr.hasBindingOption e = true
  | none, h => by cases h
  | some e, h => Expr.hasBinding_of_hasStray e h

theorem Segment.hasBindingList_of_hasStray : ∀ segments : List Segment,
    Segment.hasStrayList segments = true → Segment.hasBindingList segments = true
  | [], h => by cases h
  | .text _ :: rest, h => Segment.hasBindingList_of_hasStray rest h
  | .embed value _ _ :: rest, h => by
    refine Bool.or_eq_true_iff.mpr ((Bool.or_eq_true_iff.mp h).imp ?_ ?_)
    · exact Expr.hasBinding_of_hasStray value
    · exact Segment.hasBindingList_of_hasStray rest

theorem Element.hasBindingList_of_hasStray : ∀ elements : List Element,
    Element.hasStrayList elements = true → Element.hasBindingList elements = true
  | [], h => by cases h
  | ⟨key, value⟩ :: rest, h => by
    refine Bool.or_eq_true_iff.mpr ((Bool.or_eq_true_iff.mp h).imp (fun hown => ?_) ?_)
    · refine Bool.or_eq_true_iff.mpr ((Bool.or_eq_true_iff.mp hown).imp ?_ ?_)
      · exact Expr.hasBindingOption_of_hasStray key
      · exact Expr.hasBinding_of_hasStray value
    · exact Element.hasBindingList_of_hasStray rest
end

/-! ### Function literals -/

/-- The bodies of the function literals in which a go-binding is found. -/
def Node.boundLiterals (nodes : List Node) : List Block :=
  (Node.literals nodes).filter Block.hasBinding

/-- The function literals of parts that are put together are those of the parts. -/
theorem Node.mem_boundLiterals_append {inner : Block} {nodes rest : List Node} :
    inner ∈ Node.boundLiterals (nodes ++ rest) ↔
      inner ∈ Node.boundLiterals nodes ∨ inner ∈ Node.boundLiterals rest := by
  rw [Node.boundLiterals, Node.literals, List.filterMap_append, List.filter_append]
  exact List.mem_append

variable {inner : Block}

mutual
/-- What is found in a function literal with a go-binding is found in the expression that the
literal is part of. -/
theorem Expr.found_of_literals : ∀ e : Expr, inner ∈ Node.boundLiterals e.nodes →
    inner.found false ≤ e.found
  | .ident _ _, h => by cases h
  | .lit _ _, h => by cases h
  | .ofType _ _, h => by cases h
  | .call callee args span, h => by
    rw [Expr.found_call]
    rcases Node.mem_boundLiterals_append.mp h with h | h
    · exact le_sup_of_le_left (Expr.found_of_literals callee h)
    · exact le_sup_of_le_right (Expr.found_of_literalsList args h)
  | .template segments _, h => Segment.found_of_literals segments h
  | .attempt operand _, h => Expr.found_of_literals operand h
  | .binary op left right span, h => by
    rw [Expr.found_binary]
    rcases Node.mem_boundLiterals_append.mp h with h | h
    · exact le_sup_of_le_left (Expr.found_of_literals left h)
    · exact le_sup_of_le_right (Expr.found_of_literals right h)
  | .unary _ operand _, h => Expr.found_of_literals operand h
  | .selector base _ _, h => Expr.found_of_literals base h
  | .index base index span, h => by
    rw [Expr.found_index]
    rcases Node.mem_boundLiterals_append.mp h with h | h
    · exact le_sup_of_le_left (Expr.found_of_literals base h)
    · exact le_sup_of_le_right (Expr.found_of_literals index h)
  | .composite _ elements _, h => Element.found_of_literals elements h
  | .func params returns body span, h => by
    obtain ⟨hmem, hinner⟩ := List.mem_filter.mp h
    -- The literal itself, or one inside it, which makes the search find this one too.
    have hle : inner.found false ≤ body.found false := by
      rcases List.mem_cons.mp hmem with rfl | hmem
      · exact le_rfl
      · exact Block.found_of_literals body false (List.mem_filter.mpr ⟨hmem, hinner⟩)
    rw [Expr.found_func (hle.1 hinner)]
    exact hle

theorem Expr.found_of_literalsList : ∀ es : List Expr,
    inner ∈ Node.boundLiterals (Expr.nodesList es) → inner.found false ≤ Expr.foundList es
  | [], h => by cases h
  | e :: rest, h => by
    rw [Expr.foundList_cons]
    rcases Node.mem_boundLiterals_append.mp h with h | h
    · exact le_sup_of_le_left (Expr.found_of_literals e h)
    · exact le_sup_of_le_right (Expr.found_of_literalsList rest h)

theorem Expr.found_of_literalsOption : ∀ e : Option Expr,
    inner ∈ Node.boundLiterals (Expr.nodesOption e) → inner.found false ≤ Expr.foundOption e
  | none, h => by cases h
  | some e, h => Expr.found_of_literals e h

theorem Segment.found_of_literals : ∀ segments : List Segment,
    inner ∈ Node.boundLiterals (Segment.nodesList segments) →
      inner.found false ≤ Segment.foundList segments
  | [], h => by cases h
  | .text _ :: rest, h => Segment.found_of_literals rest h
  | .embed value verb span :: rest, h => by
    rw [Segment.foundList_embed]
    rcases Node.mem_boundLiterals_append.mp h with h | h
    · exact le_sup_of_le_left (Expr.found_of_literals value h)
    · exact le_sup_of_le_right (Segment.found_of_literals rest h)

theorem Element.found_of_literals : ∀ elements : List Element,
    inner ∈ Node.boundLiterals (Element.nodesList elements) →
      inner.found false ≤ Element.foundList elements
  | [], h => by cases h
  | ⟨key, value⟩ :: rest, h => by
    rw [Element.foundList_cons]
    rcases Node.mem_boundLiterals_append.mp h with h | h
    · refine le_sup_of_le_left ?_
      rcases Node.mem_boundLiterals_append.mp h with h | h
      · exact le_sup_of_le_left (Expr.found_of_literalsOption key h)
      · exact le_sup_of_le_right (Expr.found_of_literals value h)
    · exact le_sup_of_le_right (Element.found_of_literals rest h)

theorem Block.found_of_literals : ∀ (block : Block) (header : Bool),
    inner ∈ Node.boundLiterals block.nodes → inner.found false ≤ block.found header
  | ⟨stmts, _⟩, header, h => Stmt.found_of_literalsList stmts header h

theorem Stmt.found_of_literalsList : ∀ (stmts : List Stmt) (header : Bool),
    inner ∈ Node.boundLiterals (Stmt.nodesList stmts) →
      inner.found false ≤ Stmt.foundList header stmts
  | [], _, h => by cases h
  | stmt :: rest, header, h => by
    rw [Stmt.foundList_cons]
    rcases Node.mem_boundLiterals_append.mp h with h | h
    · exact le_sup_of_le_left (Stmt.found_of_literals stmt header h)
    · exact le_sup_of_le_right (Stmt.found_of_literalsList rest header h)

theorem Stmt.found_of_literals : ∀ (stmt : Stmt) (header : Bool),
    inner ∈ Node.boundLiterals stmt.nodes → inner.found false ≤ stmt.found header
  | .var _ _ values _, _, h => Expr.found_of_literalsList values h
  | .assign targets op values span, header, h => by
    rw [Stmt.found_assign]
    rcases Node.mem_boundLiterals_append.mp h with h | h
    · exact le_sup_of_le_left (Expr.found_of_literalsList targets h)
    · exact le_sup_of_le_right (Expr.found_of_literalsList values h)
  | .expr value, _, h => Expr.found_of_literals value h
  | .ret values _, _, h => Expr.found_of_literalsList values h
  | .cond branch, header, h => If.found_of_literals branch header h
  | .loop clause body span, header, h => by
    rw [Stmt.found_loop]
    rcases Node.mem_boundLiterals_append.mp h with h | h
    · exact le_sup_of_le_left (Clause.found_of_literals clause h)
    · exact le_sup_of_le_right (Block.found_of_literals body header h)
  | .throw value _, _, h => Expr.found_of_literals value h
  | .bind _ call _, header, h => by
    have hcall := Expr.found_of_literals call h
    exact ⟨hcall.1.trans (Bool.right_le_or _ _), hcall.2⟩
  | .go call _, _, h => Expr.found_of_literals call h
  | .defer call _, _, h => Expr.found_of_literals call h
  | .breakLoop _, _, h => by cases h
  | .continueLoop _, _, h => by cases h
  | .block body, header, h => Block.found_of_literals body header h

theorem Stmt.found_of_literalsOption : ∀ stmt : Option Stmt,
    inner ∈ Node.boundLiterals (Stmt.nodesOption stmt) → inner.found false ≤ Stmt.foundOption stmt
  | none, h => by cases h
  | some stmt, h => by
    have hstmt := Stmt.found_of_literals stmt true h
    cases stmt with
    | bind => exact ⟨hstmt.1, Bool.le_true _⟩
    | _ => exact hstmt

theorem If.found_of_literals : ∀ (branch : If) (header : Bool),
    inner ∈ Node.boundLiterals branch.nodes → inner.found false ≤ branch.found header
  | ⟨condition, thenBlock, otherwise, span⟩, header, h => by
    rw [If.found_mk]
    rcases Node.mem_boundLiterals_append.mp h with h | h
    · refine le_sup_of_le_left ?_
      rcases Node.mem_boundLiterals_append.mp h with h | h
      · exact le_sup_of_le_left (Expr.found_of_literals condition h)
      · exact le_sup_of_le_right (Block.found_of_literals thenBlock header h)
    · exact le_sup_of_le_right (Else.found_of_literals otherwise header h)

theorem Else.found_of_literals : ∀ (otherwise : Else) (header : Bool),
    inner ∈ Node.boundLiterals otherwise.nodes → inner.found false ≤ otherwise.found header
  | .none, _, h => by cases h
  | .block body, header, h => Block.found_of_literals body header h
  | .elseIf branch, header, h => If.found_of_literals branch header h

theorem Clause.found_of_literals : ∀ clause : Clause, inner ∈ Node.boundLiterals clause.nodes →
    inner.found false ≤ clause.found
  | .infinite, h => by cases h
  | .condition test, h => Expr.found_of_literals test h
  | .three first condition post, h => by
    rw [Clause.found_three]
    rcases Node.mem_boundLiterals_append.mp h with h | h
    · refine le_sup_of_le_left ?_
      rcases Node.mem_boundLiterals_append.mp h with h | h
      · exact le_sup_of_le_left (Stmt.found_of_literalsOption first h)
      · exact le_sup_of_le_right (Expr.found_of_literalsOption condition h)
    · exact le_sup_of_le_right (Stmt.found_of_literalsOption post h)
  | .range _ _ _ source, h => Expr.found_of_literals source h
end

/-- What is found in a body with a go-binding is found in the body that it is part of. -/
theorem Block.found_of_bodies {body : Block} (h : inner ∈ body.bodies)
    (hinner : inner.hasBinding = true) : inner.found false ≤ body.found false := by
  rcases List.mem_cons.mp h with rfl | h
  · exact le_rfl
  · exact Block.found_of_literals body false (List.mem_filter.mpr ⟨h, hinner⟩)

/-! ### Steps -/

mutual
/-- What is found in a step is found in the block. -/
theorem Block.found_of_steps {step : Stmt} : ∀ block : Block, step ∈ block.steps →
    step.found false ≤ block.found false
  | ⟨stmts, _⟩, h => Stmt.found_of_stepsList stmts h

theorem Stmt.found_of_stepsList {step : Stmt} : ∀ stmts : List Stmt, step ∈ Stmt.stepsList stmts →
    step.found false ≤ Stmt.foundList false stmts
  | [], h => by cases h
  | stmt :: rest, h => by
    rw [Stmt.foundList_cons]
    rcases List.mem_append.mp h with h | h
    · exact le_sup_of_le_left (Stmt.found_of_steps stmt h)
    · exact le_sup_of_le_right (Stmt.found_of_stepsList rest h)

theorem Stmt.found_of_steps {step : Stmt} : ∀ stmt : Stmt, step ∈ stmt.steps →
    step.found false ≤ stmt.found false
  | .cond branch, h => by
    rcases List.mem_cons.mp h with rfl | h
    · exact le_rfl
    · exact If.found_of_steps branch h
  | .loop clause body span, h => by
    rcases List.mem_cons.mp h with rfl | h
    · exact le_rfl
    · rw [Stmt.found_loop]
      exact le_sup_of_le_right (Block.found_of_steps body h)
  | .block body, h => by
    rcases List.mem_cons.mp h with rfl | h
    · exact le_rfl
    · exact Block.found_of_steps body h
  | .var .., h | .assign .., h | .expr _, h | .ret .., h | .throw .., h | .bind .., h | .go .., h
  | .defer .., h | .breakLoop _, h | .continueLoop _, h => by
    rw [List.mem_singleton.mp h]

theorem If.found_of_steps {step : Stmt} : ∀ branch : If, step ∈ branch.steps →
    step.found false ≤ branch.found false
  | ⟨condition, thenBlock, otherwise, span⟩, h => by
    rw [If.found_mk]
    rcases List.mem_append.mp h with h | h
    · exact le_sup_of_le_left (le_sup_of_le_right (Block.found_of_steps thenBlock h))
    · exact le_sup_of_le_right (Else.found_of_steps otherwise h)

theorem Else.found_of_steps {step : Stmt} : ∀ otherwise : Else, step ∈ otherwise.steps →
    step.found false ≤ otherwise.found false
  | .none, h => by cases h
  | .block body, h => Block.found_of_steps body h
  | .elseIf branch, h => If.found_of_steps branch h
end

/-- A go-binding among the steps is found. -/
theorem Block.hasBinding_of_steps {block : Block} {step : Stmt} (h : step ∈ block.steps)
    (hbind : step.isBind = true) : block.hasBinding = true := by
  have hle := Block.found_of_steps block h
  cases step with
  | bind names call span => exact hle.1 rfl
  | _ => cases hbind

/-- Where the search finds nothing, go-bindings are in loop headers. -/
theorem Block.inHeader_of_hasBinding_eq_false {block : Block} (h : block.hasBinding = false)
    {stmt : Stmt} (hstmt : .stmt stmt ∈ block.nodes) (hbind : stmt.isBind = true) :
    stmt.InHeader block.nodes := by
  have hnone {body : Block} (hbody : body ∈ block.bodies) : stmt ∉ body.steps := by
    intro hstep
    have hbinding : body.hasBinding = true := Block.hasBinding_of_steps hstep hbind
    have hblock : block.hasBinding = true := (Block.found_of_bodies hbody hbinding).1 hbinding
    rw [h] at hblock
    cases hblock
  rcases Block.placed block stmt hstmt with hstep | ⟨body, hbody, hstep⟩ | hheader
  · exact absurd hstep (hnone List.mem_cons_self)
  · exact absurd hstep (hnone (List.mem_cons_of_mem _ hbody))
  · exact hheader

/-- A go-binding in the header of a loop among the steps is found. -/
theorem Block.hasStray_of_steps {block : Block} {step : Stmt} (h : step ∈ block.steps)
    (hheader : step.bindsInHeader = true) : block.hasStray = true := by
  have hle := Block.found_of_steps block h
  have hoption {stmt : Option Stmt} (hbind : stmt.any Stmt.isBind = true) :
      Stmt.hasStrayOption stmt = true := by
    cases stmt with
    | none => cases hbind
    | some stmt =>
      cases stmt with
      | bind => rfl
      | _ => cases hbind
  cases step with
  | loop clause body span =>
    cases clause with
    | three first condition post =>
      refine hle.2 ?_
      show (Stmt.hasStrayOption first || Expr.hasStrayOption condition ||
        Stmt.hasStrayOption post || body.hasStray) = true
      rcases Bool.or_eq_true_iff.mp hheader with hfirst | hpost
      · simp [hoption hfirst]
      · simp [hoption hpost]
    | _ => cases hheader
  | _ => cases hheader

/-- The body has a go-binding in a loop header, and one outside of headers, which may also be in a
function literal. -/
def Block.mixes (body : Block) : Bool :=
  body.bodies.any (fun inner => inner.steps.any Stmt.isBind) && body.steps.any Stmt.bindsInHeader

/-- Both are found, wherever the body is. -/
theorem Block.found_of_mixes {body block : Block} (hbody : body ∈ block.bodies)
    (h : body.mixes = true) : block.found false = ⊤ := by
  obtain ⟨hbind, hheader⟩ := Bool.and_eq_true_iff.mp h
  obtain ⟨inner, hinner, hbind⟩ := List.any_eq_true.mp hbind
  obtain ⟨step, hstep, hbind⟩ := List.any_eq_true.mp hbind
  obtain ⟨loop, hloop, hheader⟩ := List.any_eq_true.mp hheader
  have hbinding : body.hasBinding = true := by
    have hinnerBinding : inner.hasBinding = true := Block.hasBinding_of_steps hstep hbind
    exact (Block.found_of_bodies hinner hinnerBinding).1 hinnerBinding
  have hstray : body.hasStray = true := Block.hasStray_of_steps hloop hheader
  have hfound : body.found false = ⊤ := Prod.ext hbinding hstray
  rw [eq_top_iff, ← hfound]
  exact Block.found_of_bodies hbody hbinding

/-! ### Types -/

section MapTypes

variable (f : Ty → Ty)

mutual
/-- A rewriting of types keeps the steps of a block. -/
theorem Block.steps_mapTypes : ∀ block : Block,
    (block.mapTypes f).steps = block.steps.map (Stmt.mapTypes f)
  | ⟨stmts, _⟩ => Stmt.stepsList_mapTypes stmts

theorem Stmt.stepsList_mapTypes : ∀ stmts : List Stmt,
    Stmt.stepsList (Stmt.mapTypesList f stmts) = (Stmt.stepsList stmts).map (Stmt.mapTypes f)
  | [] => rfl
  | stmt :: rest => by
    rw [Stmt.mapTypesList, Stmt.stepsList, Stmt.stepsList, List.map_append,
      Stmt.steps_mapTypes stmt, Stmt.stepsList_mapTypes rest]

theorem Stmt.steps_mapTypes : ∀ stmt : Stmt,
    (stmt.mapTypes f).steps = stmt.steps.map (Stmt.mapTypes f)
  | .cond branch => congrArg (_ :: ·) (If.steps_mapTypes branch)
  | .loop _ body _ => congrArg (_ :: ·) (Block.steps_mapTypes body)
  | .block body => congrArg (_ :: ·) (Block.steps_mapTypes body)
  | .var .. | .assign .. | .expr _ | .ret .. | .throw .. | .bind .. | .go .. | .defer ..
  | .breakLoop _ | .continueLoop _ => rfl

theorem If.steps_mapTypes : ∀ branch : If,
    (branch.mapTypes f).steps = branch.steps.map (Stmt.mapTypes f)
  | ⟨_, thenBlock, otherwise, _⟩ => by
    rw [If.mapTypes, If.steps, If.steps, List.map_append, Block.steps_mapTypes thenBlock,
      Else.steps_mapTypes otherwise]

theorem Else.steps_mapTypes : ∀ otherwise : Else,
    (otherwise.mapTypes f).steps = otherwise.steps.map (Stmt.mapTypes f)
  | .none => rfl
  | .block body => Block.steps_mapTypes body
  | .elseIf branch => If.steps_mapTypes branch
end

/-- A rewriting of types keeps the bodies of function literals. -/
theorem Block.mem_bodies_mapTypes {body : Block} (h : inner ∈ body.bodies) :
    inner.mapTypes f ∈ (body.mapTypes f).bodies := by
  rcases List.mem_cons.mp h with rfl | h
  · exact List.mem_cons_self
  · obtain ⟨node, hnode, hliteral⟩ := List.mem_filterMap.mp h
    refine List.mem_cons_of_mem _ (List.mem_filterMap.mpr ⟨node.mapTypes f, ?_, ?_⟩)
    · rw [Block.nodes_mapTypes]
      exact List.mem_map_of_mem hnode
    · cases node with
      | stmt _ => cases hliteral
      | expr e =>
        cases e with
        | func params returns literal span =>
          cases hliteral
          rfl
        | _ => cases hliteral

/-- A rewriting of types keeps go-bindings what they are. -/
theorem Stmt.isBind_mapTypes (stmt : Stmt) : (stmt.mapTypes f).isBind = stmt.isBind := by
  cases stmt with
  | _ => rfl

/-- A rewriting of types keeps go-bindings in loop headers. -/
theorem Stmt.bindsInHeader_mapTypes (stmt : Stmt) :
    (stmt.mapTypes f).bindsInHeader = stmt.bindsInHeader := by
  have hoption (stmt : Option Stmt) :
      (Stmt.mapTypesOption f stmt).any Stmt.isBind = stmt.any Stmt.isBind := by
    cases stmt with
    | none => rfl
    | some stmt => exact Stmt.isBind_mapTypes f stmt
  cases stmt with
  | loop clause body span =>
    cases clause with
    | three first condition post =>
      show ((Stmt.mapTypesOption f first).any Stmt.isBind ||
        (Stmt.mapTypesOption f post).any Stmt.isBind) = _
      rw [hoption, hoption]
      rfl
    | _ => rfl
  | _ => rfl

/-- A rewriting of types keeps a body that has go-bindings both in loop headers and outside of them.
-/
theorem Block.mixes_mapTypes {body : Block} (h : body.mixes = true) :
    (body.mapTypes f).mixes = true := by
  obtain ⟨hbind, hheader⟩ := Bool.and_eq_true_iff.mp h
  obtain ⟨inner, hinner, hbind⟩ := List.any_eq_true.mp hbind
  obtain ⟨step, hstep, hbind⟩ := List.any_eq_true.mp hbind
  obtain ⟨loop, hloop, hheader⟩ := List.any_eq_true.mp hheader
  refine Bool.and_eq_true_iff.mpr ⟨List.any_eq_true.mpr ⟨inner.mapTypes f, ?_, ?_⟩, ?_⟩
  · exact Block.mem_bodies_mapTypes f hinner
  · rw [Block.steps_mapTypes]
    refine List.any_eq_true.mpr ⟨step.mapTypes f, List.mem_map_of_mem hstep, ?_⟩
    exact (Stmt.isBind_mapTypes f step).trans hbind
  · rw [Block.steps_mapTypes]
    refine List.any_eq_true.mpr ⟨loop.mapTypes f, List.mem_map_of_mem hloop, ?_⟩
    exact (Stmt.bindsInHeader_mapTypes f loop).trans hheader

end MapTypes

end Desugar
