import Desugar.Proofs.Tree.Headers

/-!
# Go-bindings in loop headers are reported

Wherever the pass over go-bindings comes across a loop header with a go-binding, it reports it, and
goes on. So a fault is noted for a body with such a header, no matter what else stands in the body
and which names are in use.

- `Pass.Reports`: the computation notes the fault, from any supply.
- `Dispatch.redirectBlock_reports` and the theorems beside it: one for each function of the pass.
- `dispatchTasks_reports`: the same for a unit.
-/

namespace Desugar

/-- From any supply, the computation reports a go-binding in a loop header. -/
def Pass.Reports {α : Type} (p : Pass α) : Prop :=
  ∀ supply, ∃ fault ∈ (p supply).notes.faults, fault.cause = .bindingInHeader

namespace Pass.Reports

variable {α β : Type} {p : Pass α} {f : α → Pass β}

/-- What the first of two computations reports is reported. -/
theorem left (hp : p.Reports) : (p >>= f).Reports := by
  intro supply
  obtain ⟨fault, hfault, hcause⟩ := hp supply
  exact ⟨fault, List.mem_append_left _ hfault, hcause⟩

/-- What the second of two computations reports is reported. -/
theorem right (hf : ∀ a, (f a).Reports) : (p >>= f).Reports := by
  intro supply
  obtain ⟨fault, hfault, hcause⟩ := hf (p supply).value (p supply).supply
  exact ⟨fault, List.mem_append_right _ hfault, hcause⟩

theorem collect (hp : p.Reports) : p.collect.Reports := hp

end Pass.Reports

namespace Dispatch

open Pass

variable {cx : Context}

/-- The report itself. -/
theorem report_reports (span : Span) : (Pass.report .bindingInHeader span).Reports :=
  fun _ => ⟨⟨.bindingInHeader, span⟩, List.mem_cons_self, rfl⟩

/-- An expression with a header that is looked at is read, since it has another go-binding. -/
theorem read_reports {bound : Bound} {e : Expr} {redirected : Pass Expr} (h : e.hasStray = true)
    (hredirected : redirected.Reports) : (read bound e redirected).Reports := by
  have hgate : ¬(bound.isEmpty && !e.hasBinding) = true := by
    rw [Expr.hasBinding_of_hasStray e h]
    simp
  rw [read, if_neg hgate]
  exact hredirected

mutual
/-- A go-binding that stands in a loop header is found at any depth, by recursion on the tree. -/
theorem redirectExpr_reports (bound : Bound) :
    ∀ e : Expr, e.hasStray = true → (redirectExpr cx bound e).Reports
  | .ident _ _, h => by cases h
  | .lit _ _, h => by cases h
  | .ofType _ _, h => by cases h
  | .call callee args _, h => by
    rcases Bool.or_eq_true_iff.mp h with h | h
    · exact (redirectExpr_reports bound callee h).left
    · exact .right fun _ => (redirectExprs_reports bound args h).left
  | .template segments _, h => (redirectSegments_reports bound segments h).left
  | .attempt operand _, h => (redirectExpr_reports bound operand h).left
  | .binary _ left right _, h => by
    rcases Bool.or_eq_true_iff.mp h with h | h
    · exact (redirectExpr_reports bound left h).left
    · exact .right fun _ => (redirectExpr_reports bound right h).left
  | .unary _ operand _, h => (redirectExpr_reports bound operand h).left
  | .selector base _ _, h => (redirectExpr_reports bound base h).left
  | .index base index _, h => by
    rcases Bool.or_eq_true_iff.mp h with h | h
    · exact (redirectExpr_reports bound base h).left
    · exact .right fun _ => (redirectExpr_reports bound index h).left
  | .composite _ elements _, h => (redirectElements_reports bound elements h).left
  | .func _ _ body _, h =>
    (redirectBlock_reports _ body (Bool.and_eq_true_iff.mp h).2).left

theorem redirectExprs_reports (bound : Bound) :
    ∀ es : List Expr, Expr.hasStrayList es = true → (redirectExprs cx bound es).Reports
  | [], h => by cases h
  | e :: rest, h => by
    rcases Bool.or_eq_true_iff.mp h with h | h
    · exact (redirectExpr_reports bound e h).left
    · exact .right fun _ => (redirectExprs_reports bound rest h).left

theorem redirectExpr?_reports (bound : Bound) :
    ∀ e : Option Expr, Expr.hasStrayOption e = true → (redirectExpr? cx bound e).Reports
  | none, h => by cases h
  | some e, h => (redirectExpr_reports bound e h).left

theorem redirectSegments_reports (bound : Bound) : ∀ segments : List Segment,
    Segment.hasStrayList segments = true → (redirectSegments cx bound segments).Reports
  | [], h => by cases h
  | .text _ :: rest, h => (redirectSegments_reports bound rest h).left
  | .embed value _ _ :: rest, h => by
    rcases Bool.or_eq_true_iff.mp h with h | h
    · exact (redirectExpr_reports bound value h).left
    · exact .right fun _ => (redirectSegments_reports bound rest h).left

theorem redirectElements_reports (bound : Bound) : ∀ elements : List Element,
    Element.hasStrayList elements = true → (redirectElements cx bound elements).Reports
  | [], h => by cases h
  | ⟨key, value⟩ :: rest, h => by
    rcases Bool.or_eq_true_iff.mp h with h | h
    · rcases Bool.or_eq_true_iff.mp h with h | h
      · exact (redirectExpr?_reports bound key h).left
      · exact .right fun _ => (redirectExpr_reports bound value h).left
    · exact .right fun _ => .right fun _ => (redirectElements_reports bound rest h).left

theorem readExprs_reports (bound : Bound) :
    ∀ es : List Expr, Expr.hasStrayList es = true → (readExprs cx bound es).Reports
  | [], h => by cases h
  | e :: rest, h => by
    rcases Bool.or_eq_true_iff.mp h with h | h
    · exact (read_reports h (redirectExpr_reports bound e h)).left
    · exact .right fun _ => (readExprs_reports bound rest h).left

theorem readExpr?_reports (bound : Bound) :
    ∀ e : Option Expr, Expr.hasStrayOption e = true → (readExpr? cx bound e).Reports
  | none, h => by cases h
  | some e, h => (read_reports h (redirectExpr_reports bound e h)).left

/-- A body that is looked at and has a go-binding in a loop header is at fault. -/
theorem redirectBlock_reports (bound : Bound) :
    ∀ block : Block, block.hasStray = true → (redirectBlock cx bound block).Reports
  | ⟨stmts, _⟩, h => (redirectStmts_reports bound stmts h).collect.left

theorem redirectStmts_reports (bound : Bound) :
    ∀ stmts : List Stmt, Stmt.hasStrayList stmts = true → (redirectStmts cx bound stmts).Reports
  | [], h => by cases h
  | stmt :: rest, h => by
    rcases Bool.or_eq_true_iff.mp h with h | h
    · exact (redirectStmt_reports bound stmt h).left
    · exact .right fun bound => redirectStmts_reports bound rest h

theorem redirectStmt_reports (bound : Bound) :
    ∀ stmt : Stmt, stmt.hasStray = true → (redirectStmt cx bound stmt).Reports
  | .bind _ call _, h => (read_reports h (redirectExpr_reports bound call h)).left
  | .assign targets _ values _, h => by
    refine .right fun _ => ?_
    rcases Bool.or_eq_true_iff.mp h with h | h
    · exact .right fun _ => (readExprs_reports bound targets h).left
    · exact (readExprs_reports bound values h).left
  | .var _ _ values _, h => .right fun _ => (readExprs_reports bound values h).left
  | .expr value, h => (read_reports h (redirectExpr_reports bound value h)).left
  | .ret values _, h => (readExprs_reports bound values h).left
  | .throw value _, h => (read_reports h (redirectExpr_reports bound value h)).left
  | .go call _, h => (read_reports h (redirectExpr_reports bound call h)).left
  | .defer call _, h => (read_reports h (redirectExpr_reports bound call h)).left
  | .cond branch, h => (redirectIf_reports bound branch h).left
  | .loop clause body _, h => by
    rcases Bool.or_eq_true_iff.mp h with h | h
    · exact (redirectClause_reports bound clause h).left
    · exact .right fun _ => (redirectBlock_reports _ body h).left
  | .block body, h => (redirectBlock_reports bound body h).left
  | .breakLoop _, h => by cases h
  | .continueLoop _, h => by cases h

theorem redirectIf_reports (bound : Bound) :
    ∀ branch : If, branch.hasStray = true → (redirectIf cx bound branch).Reports
  | ⟨condition, thenBlock, otherwise, _⟩, h => by
    rcases Bool.or_eq_true_iff.mp h with h | h
    · rcases Bool.or_eq_true_iff.mp h with h | h
      · exact (read_reports h (redirectExpr_reports bound condition h)).left
      · exact .right fun _ => (redirectBlock_reports bound thenBlock h).left
    · exact .right fun _ => .right fun _ => (redirectElse_reports bound otherwise h).left

theorem redirectElse_reports (bound : Bound) :
    ∀ otherwise : Else, otherwise.hasStray = true → (redirectElse cx bound otherwise).Reports
  | .none, h => by cases h
  | .block body, h => (redirectBlock_reports bound body h).left
  | .elseIf branch, h => (redirectIf_reports bound branch h).left

theorem redirectClause_reports (bound : Bound) :
    ∀ clause : Clause, clause.hasStray = true → (redirectClause cx bound clause).Reports
  | .infinite, h => by cases h
  | .condition test, h => (read_reports h (redirectExpr_reports bound test h)).left
  | .three first condition post, h => by
    rcases Bool.or_eq_true_iff.mp h with h | h
    · rcases Bool.or_eq_true_iff.mp h with h | h
      · exact (redirectHeader_reports bound first h).left
      · exact .right fun _ => (readExpr?_reports _ condition h).left
    · exact .right fun _ => .right fun _ => (redirectHeader_reports _ post h).left
  | .range key value define source, h => by
    have hread : (read bound source (redirectExpr cx bound source)).Reports :=
      read_reports h (redirectExpr_reports bound source h)
    unfold redirectClause
    cases source with
    | ident name span => cases h
    | _ => exact hread.left

/-- The go-binding may be the header statement itself. -/
theorem redirectHeader_reports (bound : Bound) :
    ∀ stmt : Option Stmt, Stmt.hasStrayOption stmt = true → (redirectHeader cx bound stmt).Reports
  | none, h => by cases h
  | some stmt, h => by
    have hstmt : stmt.hasStray = true → (redirectStmt cx bound stmt).Reports :=
      redirectStmt_reports bound stmt
    cases stmt with
    | bind names call span => exact (report_reports span).left
    | _ => exact (hstmt h).collect.left
end

end Dispatch

/-! ### The pass over a unit -/

/-- A go-binding in a loop header is reported. -/
def Noted.Reports {α : Type} (x : Noted α) : Prop :=
  ∃ fault ∈ x.notes.faults, fault.cause = .bindingInHeader

namespace Noted.Reports

variable {α β : Type} {x : Noted α} {f : α → Noted β}

/-- What the first of two steps reports is reported. -/
theorem left (hx : x.Reports) : (x >>= f).Reports := by
  obtain ⟨fault, hfault, hcause⟩ := hx
  exact ⟨fault, List.mem_append_left _ hfault, hcause⟩

/-- What the second of two steps reports is reported. -/
theorem right (hf : ∀ a, (f a).Reports) : (x >>= f).Reports := by
  obtain ⟨fault, hfault, hcause⟩ := hf x.value
  exact ⟨fault, List.mem_append_right _ hfault, hcause⟩

/-- One element is enough. -/
theorem mapM {a : α} {as : List α} (ha : a ∈ as) (h : (f a).Reports) : (as.mapM f).Reports := by
  induction as with
  | nil => cases ha
  | cons other rest ih =>
    rw [List.mapM_cons]
    rcases List.mem_cons.mp ha with rfl | ha
    · exact h.left
    · exact .right fun _ => (ih ha).left

/-- A step that reports such a go-binding has no result, and the fault is among those that it gives.
-/
theorem outcome (h : x.Reports) :
    ∃ faults, x.outcome = .error faults ∧ ∃ fault ∈ faults, fault.cause = .bindingInHeader := by
  obtain ⟨fault, hfault, hcause⟩ := h
  unfold Noted.outcome
  split
  · rename_i hnone
    rw [hnone] at hfault
    cases hfault
  · exact ⟨_, rfl, fault, hfault, hcause⟩

end Noted.Reports

/-- A function with a go-binding outside loop headers, and one in a header that is looked at. -/
theorem dispatchTasks_reports (table : SignatureTable) (settings : Settings) {program : Program}
    {f : Function} (hf : .func f ∈ program.items) (hbinding : f.body.hasBinding = true)
    (hstray : f.body.hasStray = true) : (dispatchTasks table settings program).Reports := by
  have hfunction : (Dispatch.lowerFunction table settings f).Reports :=
    .left (Dispatch.redirectBlock_reports [] f.body hstray _)
  have hitem : (Dispatch.lowerItem table settings (.func f)).Reports := by
    rw [Dispatch.lowerItem, if_pos hbinding]
    exact hfunction.left
  exact .left (.mapM hf hitem)

end Desugar
