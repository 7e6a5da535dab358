import Desugar.Proofs.Propagation.Order
import Desugar.Proofs.Signature
import Desugar.Proofs.Tree.Lowered

/-!
# Error propagation leaves lowered code alone

Code without `try` and `throw`, in which no call may fail and no function returns a result, is taken
apart and put together again as it was: nothing is hoisted or spilled, and no return gets an error.

- `Propagation.lowerBlock_eq_pure` and the theorems beside it: one for each function of the pass.
- `Propagation.lowerFunction_eq_pure`: a function that already has the return clause of its
  signature.
-/

namespace Desugar

/-! ### Emitted code -/

namespace Pass

theorem emit_bind_emit (first second : List Stmt) :
    (emit first >>= fun _ => emit second) = emit (first ++ second) := rfl

theorem collect_emit (code : List Stmt) : (emit code).collect = pure ((), code) := rfl

theorem collect_pure {α : Type} (a : α) : (pure a : Pass α).collect = pure (a, []) := rfl

end Pass

/-- No call of a function of the table may fail. -/
def SignatureTable.IsSafe (table : SignatureTable) : Prop :=
  ∀ key, ∀ sig ∈ table.get? key, sig.isResult = false

namespace Propagation

open Pass

variable {cx : Context}

/-! ### Checks that find nothing -/

/-- In a safe table no call may fail. -/
theorem failing?_eq_none (hcx : cx.table.IsSafe) (e : Expr) : failing? cx e = none := by
  unfold failing?
  split
  · rename_i callee _ _
    cases hsig : cx.resolve? callee with
    | none => rfl
    | some sig =>
      obtain ⟨key, hkey⟩ := SignatureTable.exists_get?_of_resolve? hsig
      simp [Option.filter, hcx key sig hkey]
  · rfl

/-- Where no call may fail, no error is dropped. -/
theorem checkDiscarded_eq_pure (hcx : cx.table.IsSafe) (e : Expr) :
    checkDiscarded cx e = pure () := by
  rw [checkDiscarded, failing?_eq_none hcx]

/-- Where no call may fail, no error needs a target. -/
theorem checkCapture_eq_pure (hcx : cx.table.IsSafe) (targets : Nat) (es : List Expr) :
    checkCapture cx targets es = pure () := by
  unfold checkCapture
  split
  · rw [failing?_eq_none hcx]
  · rfl

/-- Propagated values have no `try`. -/
theorem soleAttempt_eq_none {frame : Frame} {es : List Expr}
    (h : Within Node.isPropagated (Expr.nodesList es)) : soleAttempt cx frame es = none := by
  rcases soleAttempt_cases cx frame es with ⟨operand, span, rfl⟩ | ⟨hnone, -⟩
  · cases (within_cons.mp (within_expr.mp h)).1
  · exact hnone

/-- Propagated values are assigned as any others are. -/
theorem assigned_eq {frame : Frame} (hcx : cx.table.IsSafe) (targets : Nat) {es : List Expr}
    (h : Within Node.isPropagated (Expr.nodesList es)) (ordered : Pass (List Expr)) :
    assigned cx frame targets es (soleAttempt cx frame es) ordered = ordered := by
  rw [soleAttempt_eq_none h, assigned, checkCapture_eq_pure hcx, pure_bind]

theorem launched_eq_self (launch : Launch) {call : Expr} (h : call.isAttempt = false)
    (lowered : Pass Expr) : launched launch call lowered = lowered := by
  cases call with
  | attempt operand span => cases h
  | _ => rfl

/-- A propagated condition is kept in the loop header. -/
theorem loopCondition_eq_pure {test : Expr} (h : Within Node.isPropagated test.nodes) :
    loopCondition test (pure test) = pure test := by
  rw [loopCondition, Expr.containsAttempt_eq_false h]
  rfl

/-- The return clause of a function literal in lowered code is the clause of its shape. -/
theorem literalShape_eq_pure (cx : Context) {returns : Option Ty} (h : Ty.isClause returns = true)
    (span : Span) :
    ∃ shape : ReturnShape, literalShape cx returns span = pure shape ∧ shape.clause = returns ∧
      shape.isResult = false := by
  obtain ⟨ts, -, hclause, hshape⟩ :=
    ReturnShape.ofClause_of_isClause cx.settings.optionPolicy h
  refine ⟨{ declared := ts, values := ts }, by rw [literalShape, hshape], ?_, rfl⟩
  rw [← hclause]
  exact congrArg Ty.clauseOfSlots (List.append_nil ts)

/-! ### The pass over a body -/

section Body

-- In a mutual induction the linter does not see a hypothesis that is used in another theorem.
set_option linter.unusedSectionVars false

variable (hcx : cx.table.IsSafe)

include hcx

mutual
/-- Where no call may fail, propagated code is kept, by recursion on the tree. -/
theorem lowerExpr_eq_pure {frame : Frame} (hframe : frame.isResult = false) :
    ∀ e : Expr, Within Node.isPropagated e.nodes → lowerExpr cx frame e = pure e
  | .ident _ _, _ => rfl
  | .lit _ _, _ => rfl
  | .ofType _ _, _ => rfl
  | .attempt _ _, h => by cases (within_cons.mp h).1
  | .binary op left right _, h => by
    obtain ⟨-, hleft, hright⟩ := within_pair.mp h
    simp [lowerExpr, Expr.containsAttempt_eq_false hright, spillBefore,
      lowerExpr_eq_pure hframe left hleft, lowerExpr_eq_pure hframe right hright]
  | .call callee args _, h => by
    obtain ⟨-, hcallee, hargs⟩ := within_pair.mp h
    have hattempt := any_containsAttempt_eq_false hargs
    rw [lowerExpr, lowerExpr_eq_pure hframe callee hcallee, pure_bind, hattempt]
    simp [spillBefore, lowerOrdered_eq_pure hframe args hargs]
  | .unary _ operand _, h => by
    obtain ⟨-, hoperand⟩ := within_cons.mp h
    rw [lowerExpr, lowerExpr_eq_pure hframe operand hoperand, pure_bind]
  | .selector base _ _, h => by
    obtain ⟨-, hbase⟩ := within_cons.mp h
    rw [lowerExpr, lowerExpr_eq_pure hframe base hbase, pure_bind]
  | .index base index _, h => by
    obtain ⟨-, hbase, hindex⟩ := within_pair.mp h
    simp [lowerExpr, Expr.containsAttempt_eq_false hindex, spillBefore,
      lowerExpr_eq_pure hframe base hbase, lowerExpr_eq_pure hframe index hindex]
  | .composite _ elements _, h => by
    obtain ⟨-, helements⟩ := within_cons.mp h
    rw [lowerExpr, lowerElements_eq_pure hframe elements helements, pure_bind]
  | .template segments _, h => by
    obtain ⟨-, hsegments⟩ := within_cons.mp h
    rw [lowerExpr, lowerSegments_eq_pure hframe segments hsegments, pure_bind]
  | .func params returns body span, h => by
    obtain ⟨hfunc, hbody⟩ := within_cons.mp h
    obtain ⟨shape, hshape, hclause, hresult⟩ :=
      literalShape_eq_pure cx (Bool.and_eq_true_iff.mp hfunc).2 span
    -- The literal is a frame of its own, and it returns no result either.
    have hliteral : (Frame.ofShape cx.table frame.literalName shape).isResult = false := hresult
    rw [lowerExpr, hshape, pure_bind, lowerBlock_eq_pure hliteral body hbody, pure_bind,
      hclause]

theorem lowerOrdered_eq_pure {frame : Frame} (hframe : frame.isResult = false) :
    ∀ es : List Expr, Within Node.isPropagated (Expr.nodesList es) →
      lowerOrdered cx frame es = pure es
  | [], _ => rfl
  | e :: rest, h => by
    obtain ⟨he, hrest⟩ := within_append.mp h
    have hattempt := any_containsAttempt_eq_false hrest
    rw [lowerOrdered, lowerExpr_eq_pure hframe e he, pure_bind, hattempt]
    simp [spillBefore, lowerOrdered_eq_pure hframe rest hrest]

theorem lowerTargets_eq_pure {frame : Frame} (hframe : frame.isResult = false) :
    ∀ es : List Expr, Within Node.isPropagated (Expr.nodesList es) →
      lowerTargets cx frame false es = pure es
  | [], _ => rfl
  | e :: rest, h => by
    obtain ⟨he, hrest⟩ := within_append.mp h
    simp [lowerTargets, lowerExpr_eq_pure hframe e he,
      lowerTargets_eq_pure hframe rest hrest]

theorem lowerElements_eq_pure {frame : Frame} (hframe : frame.isResult = false) :
    ∀ elements : List Element, Within Node.isPropagated (Element.nodesList elements) →
      lowerElements cx frame elements = pure elements
  | [], _ => rfl
  | ⟨none, value⟩ :: rest, h => by
    obtain ⟨hvalue, hrest⟩ := within_append.mp h
    rw [lowerElements, any_elements_containsAttempt_eq_false hrest,
      lowerExpr_eq_pure hframe value hvalue]
    simp [spillBefore, lowerElements_eq_pure hframe rest hrest]
  | ⟨some key, value⟩ :: rest, h => by
    obtain ⟨h, hrest⟩ := within_append.mp h
    obtain ⟨hkey, hvalue⟩ := within_append.mp h
    rw [lowerElements, any_elements_containsAttempt_eq_false hrest,
      lowerExpr_eq_pure hframe key hkey, lowerExpr_eq_pure hframe value hvalue]
    simp [spillBefore, Expr.containsAttempt_eq_false hvalue,
      lowerElements_eq_pure hframe rest hrest]

theorem lowerSegments_eq_pure {frame : Frame} (hframe : frame.isResult = false) :
    ∀ segments : List Segment, Within Node.isPropagated (Segment.nodesList segments) →
      lowerSegments cx frame segments = pure segments
  | [], _ => rfl
  | .text _ :: rest, h => by
    rw [lowerSegments, lowerSegments_eq_pure hframe rest h, pure_bind]
  | .embed value _ _ :: rest, h => by
    obtain ⟨hvalue, hrest⟩ := within_append.mp h
    rw [lowerSegments, any_segments_containsAttempt_eq_false hrest,
      lowerExpr_eq_pure hframe value hvalue]
    simp [spillBefore, lowerSegments_eq_pure hframe rest hrest]

theorem lowerBlock_eq_pure {frame : Frame} (hframe : frame.isResult = false) :
    ∀ block : Block, Within Node.isPropagated block.nodes → lowerBlock cx frame block = pure block
  | ⟨stmts, _⟩, h => by
    rw [lowerBlock, lowerStmts_eq_emit hframe stmts h, collect_emit, pure_bind]

theorem lowerStmts_eq_emit {frame : Frame} (hframe : frame.isResult = false) :
    ∀ stmts : List Stmt, Within Node.isPropagated (Stmt.nodesList stmts) →
      lowerStmts cx frame stmts = Pass.emit stmts
  | [], _ => rfl
  | stmt :: rest, h => by
    obtain ⟨hstmt, hrest⟩ := within_append.mp h
    rw [lowerStmts, lowerStmt_eq_emit hframe stmt hstmt,
      lowerStmts_eq_emit hframe rest hrest, emit_bind_emit]
    rfl

theorem lowerStmt_eq_emit {frame : Frame} (hframe : frame.isResult = false) :
    ∀ stmt : Stmt, Within Node.isPropagated stmt.nodes →
      lowerStmt cx frame stmt = Pass.emit [stmt]
  | .expr value, h => by
    obtain ⟨-, hvalue⟩ := within_cons.mp h
    rw [lowerStmt_expr cx frame (Expr.isAttempt_eq_false hvalue), checkDiscarded_eq_pure hcx,
      lowerExpr_eq_pure hframe value hvalue]
    rfl
  | .assign targets op values span, h => by
    obtain ⟨-, htargets, hvalues⟩ := within_pair.mp h
    rw [lowerStmt, any_containsAttempt_eq_false hvalues,
      lowerTargets_eq_pure hframe targets htargets, pure_bind, assigned_eq hcx _ hvalues,
      lowerOrdered_eq_pure hframe values hvalues, pure_bind]
  | .var names ty values span, h => by
    obtain ⟨-, hvalues⟩ := within_cons.mp h
    rw [lowerStmt, assigned_eq hcx _ hvalues, lowerOrdered_eq_pure hframe values hvalues,
      pure_bind]
  | .ret values span, h => by
    obtain ⟨-, hvalues⟩ := within_cons.mp h
    simp [lowerStmt, hframe, lowerOrdered_eq_pure hframe values hvalues]
  | .throw _ _, h => by cases (within_cons.mp h).1
  | .cond branch, h => by
    obtain ⟨-, hbranch⟩ := within_cons.mp h
    rw [lowerStmt, lowerIf_eq_pure hframe branch hbranch, pure_bind]
  | .loop clause body span, h => by
    obtain ⟨-, hclause, hbody⟩ := within_pair.mp h
    -- Nothing has to run before the loop, so it is not wrapped in a block.
    rw [lowerStmt, lowerClause_eq_pure hframe clause hclause, collect_pure, pure_bind]
    simp [lowerBlock_eq_pure hframe body hbody]
  | .bind names call span, h => by
    obtain ⟨-, hcall⟩ := within_cons.mp h
    rw [lowerStmt, launched_eq_self .go (Expr.isAttempt_eq_false hcall),
      lowerExpr_eq_pure hframe call hcall, pure_bind]
  | .go call span, h => by
    obtain ⟨-, hcall⟩ := within_cons.mp h
    rw [lowerStmt, checkDiscarded_eq_pure hcx, pure_bind,
      launched_eq_self .go (Expr.isAttempt_eq_false hcall),
      lowerExpr_eq_pure hframe call hcall, pure_bind]
  | .defer call span, h => by
    obtain ⟨-, hcall⟩ := within_cons.mp h
    rw [lowerStmt, checkDiscarded_eq_pure hcx, pure_bind,
      launched_eq_self .defer (Expr.isAttempt_eq_false hcall),
      lowerExpr_eq_pure hframe call hcall, pure_bind]
  | .block body, h => by
    obtain ⟨-, hbody⟩ := within_cons.mp h
    rw [lowerStmt, lowerBlock_eq_pure hframe body hbody, pure_bind]
  | .breakLoop _, _ => rfl
  | .continueLoop _, _ => rfl

theorem lowerIf_eq_pure {frame : Frame} (hframe : frame.isResult = false) :
    ∀ branch : If, Within Node.isPropagated branch.nodes → lowerIf cx frame branch = pure branch
  | ⟨condition, thenBlock, otherwise, _⟩, h => by
    obtain ⟨h, hotherwise⟩ := within_append.mp h
    obtain ⟨hcondition, hthen⟩ := within_append.mp h
    rw [lowerIf, lowerExpr_eq_pure hframe condition hcondition, pure_bind,
      lowerBlock_eq_pure hframe thenBlock hthen, pure_bind,
      lowerElse_eq_pure hframe otherwise hotherwise, pure_bind]

theorem lowerElse_eq_pure {frame : Frame} (hframe : frame.isResult = false) :
    ∀ otherwise : Else, Within Node.isPropagated otherwise.nodes →
      lowerElse cx frame otherwise = pure otherwise
  | .none, _ => rfl
  | .block body, h => by rw [lowerElse, lowerBlock_eq_pure hframe body h, pure_bind]
  | .elseIf branch, h => by
    -- Nothing has to run ahead of the condition, so the branch stays an `else if`.
    rw [lowerElse, lowerIf_eq_pure hframe branch h, collect_pure, pure_bind]
    rfl

theorem lowerClause_eq_pure {frame : Frame} (hframe : frame.isResult = false) :
    ∀ clause : Clause, Within Node.isPropagated clause.nodes →
      lowerClause cx frame clause = pure clause
  | .infinite, _ => rfl
  | .condition test, h => by
    rw [lowerClause, lowerExpr_eq_pure hframe test h, loopCondition_eq_pure h, pure_bind]
  | .three first condition post, h => by
    obtain ⟨h, hpost⟩ := within_append.mp h
    obtain ⟨hfirst, hcondition⟩ := within_append.mp h
    rw [lowerClause, lowerFirst_eq_pure hframe first hfirst, pure_bind,
      lowerCondition_eq_pure hframe condition hcondition, pure_bind,
      lowerPost_eq_pure hframe post hpost, pure_bind]
  | .range _ _ _ source, h => by
    rw [lowerClause, lowerExpr_eq_pure hframe source h, pure_bind]

theorem lowerFirst_eq_pure {frame : Frame} (hframe : frame.isResult = false) :
    ∀ first : Option Stmt, Within Node.isPropagated (Stmt.nodesOption first) →
      lowerFirst cx frame first = pure first
  | none, _ => rfl
  | some stmt, h => by
    -- The statement is the last of its code and stays in the header.
    rw [lowerFirst, lowerStmt_eq_emit hframe stmt h, collect_emit, pure_bind]
    rfl

theorem lowerCondition_eq_pure {frame : Frame} (hframe : frame.isResult = false) :
    ∀ condition : Option Expr, Within Node.isPropagated (Expr.nodesOption condition) →
      lowerCondition cx frame condition = pure condition
  | none, _ => rfl
  | some test, h => by
    rw [lowerCondition, lowerExpr_eq_pure hframe test h, loopCondition_eq_pure h, pure_bind]

theorem lowerPost_eq_pure {frame : Frame} (hframe : frame.isResult = false) :
    ∀ post : Option Stmt, Within Node.isPropagated (Stmt.nodesOption post) →
      lowerPost cx frame post = pure post
  | none, _ => rfl
  | some stmt, h => by
    rw [lowerPost, Stmt.containsAttempt_eq_false h, lowerStmt_eq_emit hframe stmt h]
    rfl
end

end Body

/-- A function of lowered code that has the return clause of its signature already. -/
theorem lowerFunction_eq_pure {table : SignatureTable} (htable : table.IsSafe)
    (settings : Settings) {f : Function} {sig : Signature} (hsig : table.get? f.key = some sig)
    (hclause : sig.clause = f.returns) (hbody : Within Node.isPropagated f.body.nodes) :
    lowerFunction table settings f sig = pure f := by
  let cx : Context := { Scope.ofFunction table f with settings }
  have hframe : (Frame.ofShape table f.name sig.returns).isResult = false :=
    htable f.key sig hsig
  have hlowered : lowerBlock cx (.ofShape table f.name sig.returns) f.body = pure f.body :=
    lowerBlock_eq_pure htable hframe f.body hbody
  show ((lowerBlock cx (.ofShape table f.name sig.returns) f.body).runWith _ >>= fun body =>
    pure { f with returns := sig.clause, body }) = pure f
  rw [hlowered, hclause]
  rfl

end Propagation

end Desugar
