import Mathlib.Order.BoundedOrder.Lattice
import Desugar.Proofs.Tree.Headers

/-!
# Surveys

A survey gathers something in a tree: the names that it has, or whether there is a go-binding. What
is gathered in a tree is the join of what is gathered in its parts. Only names, the names that a
statement declares, templates, thrown texts and function literals count for themselves, and what a
declaration counts for may depend on whether it is part of a loop header. What is lost when code is
rewritten may be found in the notes, so these count as well.

- `Survey`: what counts, and for how much.
- `Survey.expr`, `Survey.block` and the functions beside them: what is gathered in a tree.
- `Survey.settled`: the survey to which a `throw` is nothing special.
- `Survey.stmts_header`: less is gathered in a loop header.
- `Survey.block_mapTypes`: the types in a tree do not count.
-/

namespace Desugar

/-- The ways in which a statement declares names. -/
inductive Binder where
  | var
  | bind
  | range

/-- What the parts of a tree, and notes about it, count for. -/
structure Survey (L : Type) [SemilatticeSup L] [OrderBot L] where
  /-- A reference to a name. -/
  name : String → L
  /-- A declaration, inside or outside a loop header. -/
  declare : Bool → Binder → List Ident → L
  /-- A go-binding that is itself the statement of a loop header. -/
  stray : L
  /-- A function literal, by what is gathered in its body. -/
  func : List Param → L → L
  /-- The body of a function literal is surveyed like a loop header. -/
  literal : Bool
  /-- A template that is not thrown. -/
  template : L := ⊥
  /-- A string literal that is thrown. -/
  thrownText : L := ⊥
  /-- A template that is thrown. -/
  thrownTemplate : L := ⊥
  /-- What is noted while code is rewritten. -/
  noted : Notes → L := fun _ => ⊥
  declare_header : ∀ header binder names, declare true binder names ≤ declare header binder names
  func_mono : ∀ params, Monotone (func params)
  func_mapType : ∀ (f : Ty → Ty) params l, func (params.map (Param.mapType f)) l = func params l
  name_le_func : ∀ x params l, name x ≤ l → name x ≤ func params l
  noted_left : ∀ m n, noted m ≤ noted (m ++ n) := by simp
  noted_right : ∀ m n, noted n ≤ noted (m ++ n) := by simp
  func_noted : ∀ params l n, func params (l ⊔ noted n) ≤ func params l ⊔ noted n := by simp

namespace Survey

variable {L : Type} [SemilatticeSup L] [OrderBot L]

mutual
/-- What is gathered in an expression. -/
def expr (survey : Survey L) (e : Expr) : L :=
  match e with
  | .ident x _ => survey.name x
  | .lit _ _ | .ofType _ _ => ⊥
  | .call callee args _ => survey.expr callee ⊔ survey.exprs args
  | .template segments _ => survey.template ⊔ survey.segments segments
  | .attempt operand _ => survey.expr operand
  | .binary _ left right _ => survey.expr left ⊔ survey.expr right
  | .unary _ operand _ => survey.expr operand
  | .selector base _ _ => survey.expr base
  | .index base index _ => survey.expr base ⊔ survey.expr index
  | .composite _ elements _ => survey.elements elements
  | .func params _ body _ => survey.func params (survey.block survey.literal body)
termination_by structural e

/-- What is gathered in a list of expressions. -/
def exprs (survey : Survey L) (es : List Expr) : L :=
  match es with
  | [] => ⊥
  | e :: rest => survey.expr e ⊔ survey.exprs rest
termination_by structural es

/-- What is gathered in an optional expression. -/
def exprOption (survey : Survey L) (e : Option Expr) : L :=
  match e with
  | none => ⊥
  | some e => survey.expr e
termination_by structural e

/-- What is gathered in a template. -/
def segments (survey : Survey L) (segments : List Segment) : L :=
  match segments with
  | [] => ⊥
  | .text _ :: rest => survey.segments rest
  | .embed value _ _ :: rest => survey.expr value ⊔ survey.segments rest
termination_by structural segments

/-- What is gathered in a composite literal. -/
def elements (survey : Survey L) (elements : List Element) : L :=
  match elements with
  | [] => ⊥
  | ⟨key, value⟩ :: rest =>
    survey.exprOption key ⊔ survey.expr value ⊔ survey.elements rest
termination_by structural elements

/-- What is gathered in a block. -/
def block (survey : Survey L) (header : Bool) (block : Block) : L :=
  match block with
  | ⟨stmts, _⟩ => survey.stmts header stmts
termination_by structural block

/-- What is gathered in a list of statements. -/
def stmts (survey : Survey L) (header : Bool) (stmts : List Stmt) : L :=
  match stmts with
  | [] => ⊥
  | stmt :: rest => survey.stmt header stmt ⊔ survey.stmts header rest
termination_by structural stmts

/-- What is gathered in a statement. -/
def stmt (survey : Survey L) (header : Bool) (stmt : Stmt) : L :=
  match stmt with
  | .var names _ values _ => survey.declare header .var names ⊔ survey.exprs values
  | .assign targets _ values _ => survey.exprs targets ⊔ survey.exprs values
  | .expr value => survey.expr value
  | .ret values _ => survey.exprs values
  | .cond branch => survey.branch header branch
  | .loop clause body _ => survey.clause header clause ⊔ survey.block header body
  | .throw (.template segments _) _ => survey.thrownTemplate ⊔ survey.segments segments
  | .throw (.lit (.string _) _) _ => survey.thrownText
  | .throw value _ => survey.expr value
  | .bind names call _ => survey.declare header .bind names ⊔ survey.expr call
  | .go call _ => survey.expr call
  | .defer call _ => survey.expr call
  | .breakLoop _ | .continueLoop _ => ⊥
  | .block body => survey.block header body
termination_by structural stmt

/-- What is gathered in the statement of a loop header, if there is one. -/
def headerStmt (survey : Survey L) (stmt : Option Stmt) : L :=
  match stmt with
  | none => ⊥
  | some stmt => (if stmt.isBind then survey.stray else ⊥) ⊔ survey.stmt true stmt
termination_by structural stmt

/-- What is gathered in a conditional. -/
def branch (survey : Survey L) (header : Bool) (branch : If) : L :=
  match branch with
  | ⟨condition, thenBlock, otherwise, _⟩ =>
    survey.expr condition ⊔ survey.block header thenBlock ⊔ survey.otherwise header otherwise
termination_by structural branch

/-- What is gathered in what follows a failed condition. -/
def otherwise (survey : Survey L) (header : Bool) (otherwise : Else) : L :=
  match otherwise with
  | .none => ⊥
  | .block body => survey.block header body
  | .elseIf branch => survey.branch header branch
termination_by structural otherwise

/-- What is gathered in a loop header. -/
def clause (survey : Survey L) (header : Bool) (clause : Clause) : L :=
  match clause with
  | .infinite => ⊥
  | .condition test => survey.expr test
  | .three first condition post =>
    survey.headerStmt first ⊔ survey.exprOption condition ⊔ survey.headerStmt post
  | .range key value _ source =>
    survey.declare header .range (key.toList ++ value.toList) ⊔ survey.expr source
termination_by structural clause
end

variable (survey : Survey L)

/-- What is gathered in an expression that is thrown. -/
def thrown (e : Expr) : L :=
  match e with
  | .template segments _ => survey.thrownTemplate ⊔ survey.segments segments
  | .lit (.string _) _ => survey.thrownText
  | e => survey.expr e

/-- The survey that counts what is thrown as it counts any other expression. -/
def settled : Survey L := { survey with thrownText := ⊥, thrownTemplate := survey.template }

/-- What references to some names count for. -/
def names (xs : List String) : L := survey.exprs (xs.map Expr.name)

section Parts

variable (header : Bool) (span : Span)

@[simp] theorem expr_call (callee : Expr) (args : List Expr) :
    survey.expr (.call callee args span) = survey.expr callee ⊔ survey.exprs args := rfl

@[simp] theorem expr_binary (op : BinaryOp) (left right : Expr) :
    survey.expr (.binary op left right span) = survey.expr left ⊔ survey.expr right := rfl

@[simp] theorem expr_index (base index : Expr) :
    survey.expr (.index base index span) = survey.expr base ⊔ survey.expr index := rfl

@[simp] theorem exprs_nil : survey.exprs [] = ⊥ := rfl

@[simp] theorem exprs_cons (e : Expr) (rest : List Expr) :
    survey.exprs (e :: rest) = survey.expr e ⊔ survey.exprs rest := rfl

@[simp] theorem segments_embed (value : Expr) (verb : Option String) (rest : List Segment) :
    survey.segments (.embed value verb span :: rest) =
      survey.expr value ⊔ survey.segments rest := rfl

@[simp] theorem elements_cons (key : Option Expr) (value : Expr) (rest : List Element) :
    survey.elements (⟨key, value⟩ :: rest) =
      survey.exprOption key ⊔ survey.expr value ⊔ survey.elements rest := rfl

@[simp] theorem stmts_nil : survey.stmts header [] = ⊥ := rfl

@[simp] theorem stmts_cons (stmt : Stmt) (rest : List Stmt) :
    survey.stmts header (stmt :: rest) = survey.stmt header stmt ⊔ survey.stmts header rest := rfl

@[simp] theorem stmt_assign (targets : List Expr) (op : AssignOp) (values : List Expr) :
    survey.stmt header (.assign targets op values span) =
      survey.exprs targets ⊔ survey.exprs values := rfl

@[simp] theorem stmt_var (names : List Ident) (ty : Option Ty) (values : List Expr) :
    survey.stmt header (.var names ty values span) =
      survey.declare header .var names ⊔ survey.exprs values := rfl

@[simp] theorem stmt_bind (names : List Ident) (call : Expr) :
    survey.stmt header (.bind names call span) =
      survey.declare header .bind names ⊔ survey.expr call := rfl

/-- What is thrown counts in its own way. -/
theorem stmt_throw (value : Expr) :
    survey.stmt header (.throw value span) = survey.thrown value := by
  cases value with
  | lit value => cases value <;> rfl
  | _ => rfl

@[simp] theorem stmt_loop (clause : Clause) (body : Block) :
    survey.stmt header (.loop clause body span) =
      survey.clause header clause ⊔ survey.block header body := rfl

@[simp] theorem headerStmt_some (stmt : Stmt) :
    survey.headerStmt (some stmt) =
      (if stmt.isBind then survey.stray else ⊥) ⊔ survey.stmt true stmt := rfl

@[simp] theorem branch_mk (condition : Expr) (thenBlock : Block) (otherwise : Else) :
    survey.branch header ⟨condition, thenBlock, otherwise, span⟩ =
      survey.expr condition ⊔ survey.block header thenBlock ⊔ survey.otherwise header otherwise :=
  rfl

@[simp] theorem clause_three (first post : Option Stmt) (condition : Option Expr) :
    survey.clause header (.three first condition post) =
      survey.headerStmt first ⊔ survey.exprOption condition ⊔ survey.headerStmt post := rfl

@[simp] theorem clause_range (key value : Option Ident) (define : Bool) (source : Expr) :
    survey.clause header (.range key value define source) =
      survey.declare header .range (key.toList ++ value.toList) ⊔ survey.expr source := rfl

@[simp] theorem names_nil : survey.names [] = ⊥ := rfl

@[simp] theorem names_cons (x : String) (xs : List String) :
    survey.names (x :: xs) = survey.name x ⊔ survey.names xs := rfl

end Parts

/-- Without a count of their own, thrown expressions count as any others. -/
theorem stmt_throw_of_settled {survey : Survey L} (h : survey.settled = survey) {header : Bool}
    {value : Expr} {span : Span} :
    survey.stmt header (.throw value span) = survey.expr value := by
  rw [← h]
  cases value with
  | lit value => cases value <;> rfl
  | _ => rfl

/-- What is gathered in expressions is gathered one after another. -/
theorem exprs_append (es es' : List Expr) :
    survey.exprs (es ++ es') = survey.exprs es ⊔ survey.exprs es' := by
  induction es with
  | nil => rw [List.nil_append, exprs_nil, bot_sup_eq]
  | cons e rest ih => rw [List.cons_append, exprs_cons, exprs_cons, ih, sup_assoc]

theorem exprs_singleton (e : Expr) : survey.exprs [e] = survey.expr e := sup_bot_eq (survey.expr e)

theorem names_append (xs ys : List String) :
    survey.names (xs ++ ys) = survey.names xs ⊔ survey.names ys := by
  rw [names, List.map_append, exprs_append, names, names]

/-- What is gathered in statements is gathered one after another. -/
theorem stmts_append (header : Bool) (code code' : List Stmt) :
    survey.stmts header (code ++ code') =
      survey.stmts header code ⊔ survey.stmts header code' := by
  induction code with
  | nil => rw [List.nil_append, stmts_nil, bot_sup_eq]
  | cons stmt rest ih => rw [List.cons_append, stmts_cons, stmts_cons, ih, sup_assoc]

theorem stmts_singleton (header : Bool) (stmt : Stmt) :
    survey.stmts header [stmt] = survey.stmt header stmt := sup_bot_eq (survey.stmt header stmt)

/-- A function literal has the names that are gathered in its body. -/
theorem names_le_func {params : List Param} {l : L} {xs : List String} (h : survey.names xs ≤ l) :
    survey.names xs ≤ survey.func params l := by
  induction xs with
  | nil => exact bot_le
  | cons x rest ih =>
    rw [names_cons] at h ⊢
    obtain ⟨hx, hrest⟩ := sup_le_iff.mp h
    exact sup_le (survey.name_le_func x params l hx) (ih hrest)

mutual
/-- In a loop header, code counts for no more than elsewhere. -/
theorem block_header (header : Bool) : ∀ block : Block,
    survey.block true block ≤ survey.block header block
  | ⟨stmts, _⟩ => stmts_header header stmts

/-- In a loop header declarations count for less. -/
theorem stmts_header (header : Bool) : ∀ stmts : List Stmt,
    survey.stmts true stmts ≤ survey.stmts header stmts
  | [] => le_rfl
  | stmt :: rest => sup_le_sup (stmt_header header stmt) (stmts_header header rest)

theorem stmt_header (header : Bool) : ∀ stmt : Stmt,
    survey.stmt true stmt ≤ survey.stmt header stmt
  | .var names _ _ _ => sup_le_sup_right (survey.declare_header header .var names) _
  | .bind names _ _ => sup_le_sup_right (survey.declare_header header .bind names) _
  | .cond branch => branch_header header branch
  | .loop clause body _ => sup_le_sup (clause_header header clause) (block_header header body)
  | .block body => block_header header body
  | .throw value span => by rw [stmt_throw, stmt_throw]
  | .assign _ _ _ _ | .expr _ | .ret _ _ | .go _ _ | .defer _ _ => le_rfl
  | .breakLoop _ | .continueLoop _ => le_rfl

theorem branch_header (header : Bool) : ∀ branch : If,
    survey.branch true branch ≤ survey.branch header branch
  | ⟨_, thenBlock, otherwise, _⟩ =>
    sup_le_sup (sup_le_sup_left (block_header header thenBlock) _)
      (otherwise_header header otherwise)

theorem otherwise_header (header : Bool) : ∀ otherwise : Else,
    survey.otherwise true otherwise ≤ survey.otherwise header otherwise
  | .none => le_rfl
  | .block body => block_header header body
  | .elseIf branch => branch_header header branch

theorem clause_header (header : Bool) : ∀ clause : Clause,
    survey.clause true clause ≤ survey.clause header clause
  | .infinite | .condition _ | .three _ _ _ => le_rfl
  | .range key value _ _ =>
    sup_le_sup_right (survey.declare_header header .range (key.toList ++ value.toList)) _
end

section Types

variable (f : Ty → Ty)

mutual
/-- A rewriting of types changes nothing in what is gathered. -/
theorem expr_mapTypes : ∀ e : Expr, survey.expr (e.mapTypes f) = survey.expr e
  | .ident _ _ | .lit _ _ | .ofType _ _ => rfl
  | .call callee args _ => congrArg₂ (· ⊔ ·) (expr_mapTypes callee) (exprs_mapTypes args)
  | .template segments _ => congrArg (survey.template ⊔ ·) (segments_mapTypes segments)
  | .attempt operand _ => expr_mapTypes operand
  | .binary _ left right _ => congrArg₂ (· ⊔ ·) (expr_mapTypes left) (expr_mapTypes right)
  | .unary _ operand _ => expr_mapTypes operand
  | .selector base _ _ => expr_mapTypes base
  | .index base index _ => congrArg₂ (· ⊔ ·) (expr_mapTypes base) (expr_mapTypes index)
  | .composite _ elements _ => elements_mapTypes elements
  | .func params _ body _ =>
    (survey.func_mapType f params _).trans
      (congrArg (survey.func params) (block_mapTypes survey.literal body))

theorem exprs_mapTypes : ∀ es : List Expr,
    survey.exprs (Expr.mapTypesList f es) = survey.exprs es
  | [] => rfl
  | e :: rest => congrArg₂ (· ⊔ ·) (expr_mapTypes e) (exprs_mapTypes rest)

theorem exprOption_mapTypes : ∀ e : Option Expr,
    survey.exprOption (Expr.mapTypesOption f e) = survey.exprOption e
  | none => rfl
  | some e => expr_mapTypes e

theorem segments_mapTypes : ∀ segments : List Segment,
    survey.segments (Segment.mapTypesList f segments) = survey.segments segments
  | [] => rfl
  | .text _ :: rest => segments_mapTypes rest
  | .embed value _ _ :: rest => congrArg₂ (· ⊔ ·) (expr_mapTypes value) (segments_mapTypes rest)

theorem elements_mapTypes : ∀ elements : List Element,
    survey.elements (Element.mapTypesList f elements) = survey.elements elements
  | [] => rfl
  | ⟨key, value⟩ :: rest =>
    congrArg₂ (· ⊔ ·) (congrArg₂ (· ⊔ ·) (exprOption_mapTypes key) (expr_mapTypes value))
      (elements_mapTypes rest)

/-- Types do not count. -/
theorem block_mapTypes (header : Bool) : ∀ block : Block,
    survey.block header (block.mapTypes f) = survey.block header block
  | ⟨stmts, _⟩ => stmts_mapTypes header stmts

theorem stmts_mapTypes (header : Bool) : ∀ stmts : List Stmt,
    survey.stmts header (Stmt.mapTypesList f stmts) = survey.stmts header stmts
  | [] => rfl
  | stmt :: rest => congrArg₂ (· ⊔ ·) (stmt_mapTypes header stmt) (stmts_mapTypes header rest)

theorem stmt_mapTypes (header : Bool) : ∀ stmt : Stmt,
    survey.stmt header (stmt.mapTypes f) = survey.stmt header stmt
  | .var _ _ values _ => congrArg (_ ⊔ ·) (exprs_mapTypes values)
  | .assign targets _ values _ =>
    congrArg₂ (· ⊔ ·) (exprs_mapTypes targets) (exprs_mapTypes values)
  | .expr value => expr_mapTypes value
  | .ret values _ => exprs_mapTypes values
  | .cond branch => branch_mapTypes header branch
  | .loop clause body _ =>
    congrArg₂ (· ⊔ ·) (clause_mapTypes header clause) (block_mapTypes header body)
  | .throw value span => by
    have hvalue := expr_mapTypes value
    rw [Stmt.mapTypes, stmt_throw, stmt_throw]
    cases value with
    | template segments => exact congrArg (survey.thrownTemplate ⊔ ·) (segments_mapTypes segments)
    | lit value => rfl
    | _ => exact hvalue
  | .bind _ call _ => congrArg (_ ⊔ ·) (expr_mapTypes call)
  | .go call _ => expr_mapTypes call
  | .defer call _ => expr_mapTypes call
  | .breakLoop _ | .continueLoop _ => rfl
  | .block body => block_mapTypes header body

theorem headerStmt_mapTypes : ∀ stmt : Option Stmt,
    survey.headerStmt (Stmt.mapTypesOption f stmt) = survey.headerStmt stmt
  | none => rfl
  | some stmt => by
    rw [Stmt.mapTypesOption, headerStmt_some, headerStmt_some, stmt.isBind_mapTypes f,
      stmt_mapTypes true stmt]

theorem branch_mapTypes (header : Bool) : ∀ branch : If,
    survey.branch header (branch.mapTypes f) = survey.branch header branch
  | ⟨condition, thenBlock, otherwise, _⟩ =>
    congrArg₂ (· ⊔ ·)
      (congrArg₂ (· ⊔ ·) (expr_mapTypes condition) (block_mapTypes header thenBlock))
      (otherwise_mapTypes header otherwise)

theorem otherwise_mapTypes (header : Bool) : ∀ otherwise : Else,
    survey.otherwise header (otherwise.mapTypes f) = survey.otherwise header otherwise
  | .none => rfl
  | .block body => block_mapTypes header body
  | .elseIf branch => branch_mapTypes header branch

theorem clause_mapTypes (header : Bool) : ∀ clause : Clause,
    survey.clause header (clause.mapTypes f) = survey.clause header clause
  | .infinite => rfl
  | .condition test => expr_mapTypes test
  | .three first condition post =>
    congrArg₂ (· ⊔ ·)
      (congrArg₂ (· ⊔ ·) (headerStmt_mapTypes first) (exprOption_mapTypes condition))
      (headerStmt_mapTypes post)
  | .range _ _ _ source => congrArg (_ ⊔ ·) (expr_mapTypes source)
end

end Types

end Survey

end Desugar
