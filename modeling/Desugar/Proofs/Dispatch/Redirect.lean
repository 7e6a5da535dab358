import Desugar.Proofs.Dispatch.Complete
import Desugar.Proofs.Dispatch.Untouched

/-!
# Receives follow lexical scope

Every statement keeps the list of bound names in step with the visible declarations, so that each
receive is judged as lexical scope has it.

- `Dispatch.redirectExpr_redirects` and the theorems beside it: one for each function of the pass.
- `dispatchTasks_redirects`: the functions of a unit.
-/

namespace Desugar

namespace Dispatch

open Pass

variable {cx : Context}

/-! ### Operands of a dispatched call

The callee and the arguments of the call are evaluated into temporaries or stand in the task. -/

/-- The defined values are among the nodes of a definition. -/
theorem mem_nodes_define {names : List String} {values : List Expr} {e : Expr} (h : e ∈ values) :
    .expr e ∈ (Stmt.define names values).nodes :=
  List.mem_cons_of_mem _ (List.mem_append_right _ (Expr.mem_nodesList h))

/-- The nodes of its body are among the nodes of a task. -/
theorem mem_nodes_task {body : List Stmt} {span : Span} {node : Node}
    (h : node ∈ Stmt.nodesList body) :
    node ∈ Stmt.nodesList [.go (Expr.apply (.func [] none (.inserted body) span) []) span] := by
  simp only [Stmt.nodesList, Stmt.nodes, Expr.apply, Expr.nodes, Block.inserted, Block.nodes,
    List.mem_append, List.mem_cons]
  exact .inl (.inr (.inr (.inl (.inr h))))

/-- A captured operand is in the emitted code. -/
theorem capture_ensures (e : Expr) :
    (capture e).Ensures fun _ code => .expr e ∈ Stmt.nodesList code := by
  intro supply _
  exact List.mem_append_left _ (mem_nodes_define (List.mem_singleton_self e))

/-- The callee is in the emitted code, or it is called as it stands. -/
theorem captureCallee_ensures (callee : Expr) :
    (captureCallee callee).Ensures fun callee' code =>
      .expr callee ∈ Stmt.nodesList code ∨ callee' = callee := by
  unfold captureCallee
  split
  · exact (capture_ensures _).mono fun _ _ h => .inl h
  · exact ensures_pure (.inr rfl)

/-- Each argument is in the emitted code, or it is passed as it stands. -/
theorem captureArgs_ensures (args : List Expr) :
    (captureArgs args).Ensures fun args' code =>
      ∀ arg ∈ args, .expr arg ∈ Stmt.nodesList code ∨ arg ∈ args' := by
  induction args with
  | nil => exact ensures_pure nofun
  | cons arg rest ih =>
    have hfinish (arg' : Expr) (before : List Stmt)
        (harg : .expr arg ∈ Stmt.nodesList before ∨ arg' = arg) :
        (captureArgs rest >>= fun rest => pure (arg' :: rest)).Ensures fun args' code =>
          ∀ a ∈ arg :: rest, .expr a ∈ Stmt.nodesList (before ++ code) ∨ a ∈ args' := by
      refine ih.bind fun rest' code hrest => ensures_pure ?_
      intro a ha
      rw [Stmt.nodesList_append, Stmt.nodesList_append]
      rcases List.mem_cons.mp ha with rfl | ha
      · refine harg.imp (List.mem_append_left _) fun h => ?_
        rw [h]
        exact List.mem_cons_self
      · refine (hrest a ha).imp (fun h => ?_) (List.mem_cons_of_mem _)
        exact List.mem_append_right _ (List.mem_append_left _ h)
    refine Ensures.ite (fun _ => ?_) fun _ => ?_
    · exact (hfinish arg [] (.inr rfl)).mono fun _ _ h => h
    · exact (capture_ensures arg).bind fun arg' before h => hfinish arg' before (.inl h)

/-- The nodes of the call are among the nodes of the body of the task. -/
theorem taskBody_computes (names : List Ident) (states : List String) (call : Expr) (span : Span) :
    (taskBody names states call span).Computes fun body =>
      ∀ node ∈ call.nodes, node ∈ Stmt.nodesList body := by
  have hresults : ∀ names : List Ident, (resultNames names).Computes fun _ => True := by
    intro names
    induction names with
    | nil => exact Computes.pure trivial
    | cons name rest ih =>
      have hrest (result : String) :
          (resultNames rest >>= fun rest => pure (result :: rest)).Computes fun _ => True :=
        Computes.bind ih fun _ _ => Computes.pure trivial
      refine Ensures.ite (fun _ => hrest "_") fun _ => ?_
      exact Computes.bind (computes_fresh "Val") fun result _ => hrest result
  refine Ensures.ite (fun _ => Computes.pure ?_) fun _ => ?_
  · intro node hnode
    exact List.mem_append_left _ (List.mem_cons_of_mem _ hnode)
  · refine Computes.bind (computes_fresh "Fail") fun failure _ => ?_
    refine Computes.bind (hresults names) fun results _ => Computes.pure ?_
    intro node hnode
    -- The call is the value that the results are defined by.
    have hdefine : node ∈ (Stmt.define results [call]).nodes :=
      List.mem_cons_of_mem _ (List.mem_append_right _ (List.mem_append_left _ hnode))
    exact List.mem_append_right _ (List.mem_append_left _ hdefine)

/-- The callee and each argument are in the code of a go-binding. -/
theorem dispatchCall_ensures (names : List Ident) (sig : Signature) (callee : Expr)
    (args : List Expr) (callSpan span : Span) :
    (dispatchCall cx names sig callee args callSpan span).Ensures fun _ code =>
      ∀ e ∈ callee :: args, .expr e ∈ Stmt.nodesList code := by
  refine (ensures_emit _).bind fun _ states _ => ?_
  refine (captureCallee_ensures callee).bind fun callee' first hcallee => ?_
  refine (captureArgs_ensures args).bind fun args' second hargs => ?_
  refine Computes.bind (taskBody_computes _ _ _ _) fun body hbody => ?_
  refine (ensures_emit _).bind fun _ task htask => ?_
  intro supply _ e he
  have hcall {e : Expr} (h : .expr e ∈ callee'.nodes ++ Expr.nodesList args') :
      .expr e ∈ Stmt.nodesList task := by
    rw [htask]
    exact mem_nodes_task (hbody _ (List.mem_cons_of_mem _ h))
  simp only [Stmt.nodesList_append, List.mem_append]
  rcases List.mem_cons.mp he with rfl | he
  · rcases hcallee with h | rfl
    · exact .inr (.inl h)
    · exact .inr (.inr (.inr (.inl (hcall (List.mem_append_left _ callee'.mem_nodes_self)))))
  · rcases hargs e he with h | h
    · exact .inr (.inr (.inl h))
    · exact .inr (.inr (.inr (.inl (hcall (List.mem_append_right _ (Expr.mem_nodesList h))))))

/-- A go-binding that is accepted becomes statements that run it. -/
theorem dispatch_ensures (names : List Ident) (call : Expr) (span : Span) :
    (dispatch cx names call span).Ensures fun _ code => Launches cx names call span code := by
  have hoperands : (dispatch cx names call span).Ensures fun _ code =>
      ∀ e ∈ call.parts, .expr e ∈ Stmt.nodesList code := by
    unfold dispatch
    split
    · split
      · refine .ite (fun _ => ensures_report _ _) fun _ => ?_
        refine .ite (fun _ => ensures_report _ _) fun _ => ?_
        exact dispatchCall_ensures _ _ _ _ _ _
      · exact ensures_report _ _
    · exact ensures_report _ _
  intro supply hfaults
  exact ⟨⟨supply, hfaults, rfl⟩, hoperands supply hfaults⟩

/-! ### Parts of the pass -/

section Parts

variable {bound : Bound} {Γ : Visible}

/-- Redirection neither makes a name of another expression nor renames one. -/
theorem Redirected.asName?_eq {e e' : Expr} (h : Redirected cx Γ e e') :
    e'.asName? = e.asName? := by
  cases h <;> rfl

/-- The targets of an assignment declare the same names as before. -/
theorem RedirectedList.filterMap_asName? : ∀ {es es' : List Expr}, RedirectedList cx Γ es es' →
    es'.filterMap Expr.asName? = es.filterMap Expr.asName?
  | [], _, h => by
    cases h
    rfl
  | e :: rest, _, h => by
    cases h with
    | cons he hrest =>
      rw [List.filterMap_cons, List.filterMap_cons, he.asName?_eq, hrest.filterMap_asName?]

/-- A statement that is no go-binding stays a single one. -/
theorem RedirectedStmt.exists_singleton {stmt : Stmt} {code : List Stmt}
    (h : RedirectedStmt cx Γ stmt code) (hstmt : ∀ names call span, stmt ≠ .bind names call span) :
    ∃ stmt', code = [stmt'] := by
  cases h with
  | bind hcall hlaunch => exact absurd rfl (hstmt _ _ _)
  | _ => exact ⟨_, rfl⟩

/-- What a receive is replaced by depends on what its operand means where it stands. -/
theorem receive_redirected (hΓ : Follows bound Γ) {operand operand' : Expr} {span : Span}
    (h : Redirected cx Γ operand operand') :
    Redirected cx Γ (.unary .receive operand span) (receive bound operand' span) := by
  have hoperand := h
  cases h with
  | @ident Γ name nameSpan =>
    by_cases hname : name ∈ bound
    · have heq : receive bound (.ident name nameSpan) span =
          .call (.selector (.ident name nameSpan) "get" .nowhere) [] span := by
        simp [receive, boundReceive?, hname, Expr.member]
      rw [heq]
      exact .task ((hΓ name).mp hname)
    · have heq : receive bound (.ident name nameSpan) span =
          .unary .receive (.ident name nameSpan) span := by
        simp [receive, boundReceive?, hname]
      rw [heq]
      refine .unary ?_ hoperand
      rintro - _ ⟨⟩ htask
      exact hname ((hΓ name).mpr htask)
  | _ => exact .unary (fun _ _ h => nomatch h) hoperand

/-- The shortcut leaves alone only what the judgement leaves as it is. -/
theorem read_redirects (hΓ : Follows bound Γ) {e : Expr} {redirected : Pass Expr}
    (hn : Within Node.hasPlainHeader e.nodes) (h : redirected.Computes (Redirected cx Γ e)) :
    (read bound e redirected).Computes (Redirected cx Γ e) := by
  refine Ensures.ite (fun hskip => Computes.pure ?_) fun _ => h
  obtain ⟨hbound, hbinding⟩ := Bool.and_eq_true_iff.mp hskip
  obtain rfl := List.isEmpty_iff.mp hbound
  exact redirected_refl hΓ e (by simpa using hbinding) hn

/-- The check of a comma-ok receive emits no code. -/
theorem rejectCommaOk_computes (targets : Nat) (values : List Expr) :
    (rejectCommaOk bound targets values).Computes fun _ => True := by
  unfold rejectCommaOk
  split
  · split
    · exact ensures_report _ _
    · exact Computes.pure trivial
  · exact Computes.pure trivial

end Parts

/-! ### The pass over a body

A statement keeps `Follows`: the names bound after it are those that its declarations leave. -/

mutual
/-- Redirection follows the names in sight, by recursion on the tree: the bound names that it knows
are those that the scope shows as states. -/
theorem redirectExpr_redirects {bound : Bound} {Γ : Visible} (hΓ : Follows bound Γ) :
    ∀ e : Expr, Within Node.hasPlainHeader e.nodes →
      (redirectExpr cx bound e).Computes (Redirected cx Γ e)
  | .ident _ _, _ => Computes.pure .ident
  | .lit _ _, _ => Computes.pure .lit
  | .ofType _ _, _ => Computes.pure .ofType
  | .call callee args _, hn => by
    obtain ⟨-, hcallee, hargs⟩ := within_pair.mp hn
    refine Computes.bind (redirectExpr_redirects hΓ callee hcallee) fun callee' hcallee => ?_
    refine Computes.bind (redirectExprs_redirects hΓ args hargs) fun args' hargs => ?_
    exact Computes.pure (.call hcallee hargs)
  | .template segments _, hn => by
    obtain ⟨-, hsegments⟩ := within_cons.mp hn
    refine Computes.bind (redirectSegments_redirects hΓ segments hsegments)
      fun segments' hsegments => ?_
    exact Computes.pure (.template hsegments)
  | .attempt operand _, hn => by
    obtain ⟨-, hoperand⟩ := within_cons.mp hn
    refine Computes.bind (redirectExpr_redirects hΓ operand hoperand) fun operand' hoperand => ?_
    exact Computes.pure (.attempt hoperand)
  | .binary _ left right _, hn => by
    obtain ⟨-, hleft, hright⟩ := within_pair.mp hn
    refine Computes.bind (redirectExpr_redirects hΓ left hleft) fun left' hleft => ?_
    refine Computes.bind (redirectExpr_redirects hΓ right hright) fun right' hright => ?_
    exact Computes.pure (.binary hleft hright)
  | .unary op operand span, hn => by
    obtain ⟨-, hoperand⟩ := within_cons.mp hn
    refine Computes.bind (redirectExpr_redirects hΓ operand hoperand) fun operand' hoperand => ?_
    cases op with
    | receive => exact Computes.pure (receive_redirected hΓ hoperand)
    | _ => exact Computes.pure (.unary nofun hoperand)
  | .selector base _ _, hn => by
    obtain ⟨-, hbase⟩ := within_cons.mp hn
    refine Computes.bind (redirectExpr_redirects hΓ base hbase) fun base' hbase => ?_
    exact Computes.pure (.selector hbase)
  | .index base index _, hn => by
    obtain ⟨-, hbase, hindex⟩ := within_pair.mp hn
    refine Computes.bind (redirectExpr_redirects hΓ base hbase) fun base' hbase => ?_
    refine Computes.bind (redirectExpr_redirects hΓ index hindex) fun index' hindex => ?_
    exact Computes.pure (.index hbase hindex)
  | .composite _ elements _, hn => by
    obtain ⟨-, helements⟩ := within_cons.mp hn
    refine Computes.bind (redirectElements_redirects hΓ elements helements)
      fun elements' helements => ?_
    exact Computes.pure (.composite helements)
  | .func params _ body _, hn => by
    obtain ⟨-, hbody⟩ := within_cons.mp hn
    -- The parameters hide bound names in the body only.
    refine Computes.bind (redirectBlock_redirects (hΓ.hide (params.map (·.name))) body hbody)
      fun body' hbody => ?_
    exact Computes.pure (.func hbody)

theorem redirectExprs_redirects {bound : Bound} {Γ : Visible} (hΓ : Follows bound Γ) :
    ∀ es : List Expr, Within Node.hasPlainHeader (Expr.nodesList es) →
      (redirectExprs cx bound es).Computes (RedirectedList cx Γ es)
  | [], _ => Computes.pure .nil
  | e :: rest, hn => by
    obtain ⟨he, hrest⟩ := within_append.mp hn
    refine Computes.bind (redirectExpr_redirects hΓ e he) fun e' he => ?_
    refine Computes.bind (redirectExprs_redirects hΓ rest hrest) fun rest' hrest => ?_
    exact Computes.pure (.cons he hrest)

theorem redirectExpr?_redirects {bound : Bound} {Γ : Visible} (hΓ : Follows bound Γ) :
    ∀ e : Option Expr, Within Node.hasPlainHeader (Expr.nodesOption e) →
      (redirectExpr? cx bound e).Computes (RedirectedOption cx Γ e)
  | none, _ => Computes.pure .none
  | some e, hn =>
    Computes.bind (redirectExpr_redirects hΓ e hn) fun _ he => Computes.pure (.some he)

theorem redirectSegments_redirects {bound : Bound} {Γ : Visible} (hΓ : Follows bound Γ) :
    ∀ segments : List Segment, Within Node.hasPlainHeader (Segment.nodesList segments) →
      (redirectSegments cx bound segments).Computes (RedirectedSegments cx Γ segments)
  | [], _ => Computes.pure .nil
  | .text _ :: rest, hn =>
    Computes.bind (redirectSegments_redirects hΓ rest hn) fun _ hrest => Computes.pure (.text hrest)
  | .embed value _ _ :: rest, hn => by
    obtain ⟨hvalue, hrest⟩ := within_append.mp hn
    refine Computes.bind (redirectExpr_redirects hΓ value hvalue) fun value' hvalue => ?_
    refine Computes.bind (redirectSegments_redirects hΓ rest hrest) fun rest' hrest => ?_
    exact Computes.pure (.embed hvalue hrest)

theorem redirectElements_redirects {bound : Bound} {Γ : Visible} (hΓ : Follows bound Γ) :
    ∀ elements : List Element, Within Node.hasPlainHeader (Element.nodesList elements) →
      (redirectElements cx bound elements).Computes (RedirectedElements cx Γ elements)
  | [], _ => Computes.pure .nil
  | ⟨key, value⟩ :: rest, hn => by
    obtain ⟨hn, hrest⟩ := within_append.mp hn
    obtain ⟨hkey, hvalue⟩ := within_append.mp hn
    refine Computes.bind (redirectExpr?_redirects hΓ key hkey) fun key' hkey => ?_
    refine Computes.bind (redirectExpr_redirects hΓ value hvalue) fun value' hvalue => ?_
    refine Computes.bind (redirectElements_redirects hΓ rest hrest) fun rest' hrest => ?_
    exact Computes.pure (.cons hkey hvalue hrest)

theorem readExprs_redirects {bound : Bound} {Γ : Visible} (hΓ : Follows bound Γ) :
    ∀ es : List Expr, Within Node.hasPlainHeader (Expr.nodesList es) →
      (readExprs cx bound es).Computes (RedirectedList cx Γ es)
  | [], _ => Computes.pure .nil
  | e :: rest, hn => by
    obtain ⟨he, hrest⟩ := within_append.mp hn
    refine Computes.bind (read_redirects hΓ he (redirectExpr_redirects hΓ e he)) fun e' he => ?_
    refine Computes.bind (readExprs_redirects hΓ rest hrest) fun rest' hrest => ?_
    exact Computes.pure (.cons he hrest)

theorem readExpr?_redirects {bound : Bound} {Γ : Visible} (hΓ : Follows bound Γ) :
    ∀ e : Option Expr, Within Node.hasPlainHeader (Expr.nodesOption e) →
      (readExpr? cx bound e).Computes (RedirectedOption cx Γ e)
  | none, _ => Computes.pure .none
  | some e, hn =>
    Computes.bind (read_redirects hΓ hn (redirectExpr_redirects hΓ e hn))
      fun _ he => Computes.pure (.some he)

theorem redirectBlock_redirects {bound : Bound} {Γ : Visible} (hΓ : Follows bound Γ) :
    ∀ block : Block, Within Node.hasPlainHeader block.nodes →
      (redirectBlock cx bound block).Computes (RedirectedBlock cx Γ block)
  | ⟨stmts, _⟩, hn =>
    Computes.bind (redirectStmts_redirects hΓ stmts hn).collect
      fun _ hstmts => Computes.pure (.mk hstmts)

theorem redirectStmts_redirects {bound : Bound} {Γ : Visible} (hΓ : Follows bound Γ) :
    ∀ stmts : List Stmt, Within Node.hasPlainHeader (Stmt.nodesList stmts) →
      (redirectStmts cx bound stmts).Ensures fun _ code => RedirectedStmts cx Γ stmts code
  | [], _ => ensures_pure .nil
  | stmt :: rest, hn => by
    obtain ⟨hstmt, hrest⟩ := within_append.mp hn
    refine (redirectStmt_redirects hΓ stmt hstmt).bind fun after code ⟨hcode, hafter⟩ => ?_
    exact (redirectStmts_redirects hafter rest hrest).mono fun _ code' hcode' =>
      .cons hcode hcode'

theorem redirectStmt_redirects {bound : Bound} {Γ : Visible} (hΓ : Follows bound Γ) :
    ∀ stmt : Stmt, Within Node.hasPlainHeader stmt.nodes →
      (redirectStmt cx bound stmt).Ensures fun after code =>
        RedirectedStmt cx Γ stmt code ∧ Follows after (stmt.declares ++ Γ)
  | .bind names call span, hn => by
    obtain ⟨-, hcall⟩ := within_cons.mp hn
    refine Computes.bind (read_redirects hΓ hcall (redirectExpr_redirects hΓ call hcall))
      fun call' hcall => ?_
    refine (dispatch_ensures names call' span).bind fun _ code hcode => ensures_pure ?_
    rw [List.append_nil]
    exact ⟨.bind hcall hcode, hΓ.bind names call span⟩
  | .assign targets op values span, hn => by
    obtain ⟨-, htargets, hvalues⟩ := within_pair.mp hn
    refine Computes.bind (rejectCommaOk_computes _ _) fun _ _ => ?_
    refine Computes.bind (readExprs_redirects hΓ values hvalues) fun values' hvalues => ?_
    refine Computes.bind (readExprs_redirects hΓ targets htargets) fun targets' htargets => ?_
    refine (ensures_emit _).bind fun _ code hcode => ?_
    subst hcode
    cases op with
    | define =>
      refine ensures_pure ⟨.assign htargets hvalues, ?_⟩
      rw [htargets.filterMap_asName?]
      exact hΓ.hide (targets.filterMap Expr.asName?)
    | store => exact ensures_pure ⟨.assign htargets hvalues, hΓ⟩
    | update op => exact ensures_pure ⟨.assign htargets hvalues, hΓ⟩
  | .var names ty values span, hn => by
    obtain ⟨-, hvalues⟩ := within_cons.mp hn
    refine Computes.bind (rejectCommaOk_computes _ _) fun _ _ => ?_
    refine Computes.bind (readExprs_redirects hΓ values hvalues) fun values' hvalues => ?_
    exact ensures_emit_pure ⟨.var hvalues, hΓ.hide (names.map (·.name))⟩
  | .expr value, hn => by
    obtain ⟨-, hvalue⟩ := within_cons.mp hn
    refine Computes.bind (read_redirects hΓ hvalue (redirectExpr_redirects hΓ value hvalue))
      fun value' hvalue => ?_
    exact ensures_emit_pure ⟨.expr hvalue, hΓ⟩
  | .ret values _, hn => by
    obtain ⟨-, hvalues⟩ := within_cons.mp hn
    refine Computes.bind (readExprs_redirects hΓ values hvalues) fun values' hvalues => ?_
    exact ensures_emit_pure ⟨.ret hvalues, hΓ⟩
  | .throw value _, hn => by
    obtain ⟨-, hvalue⟩ := within_cons.mp hn
    refine Computes.bind (read_redirects hΓ hvalue (redirectExpr_redirects hΓ value hvalue))
      fun value' hvalue => ?_
    exact ensures_emit_pure ⟨.throw hvalue, hΓ⟩
  | .go call _, hn => by
    obtain ⟨-, hcall⟩ := within_cons.mp hn
    refine Computes.bind (read_redirects hΓ hcall (redirectExpr_redirects hΓ call hcall))
      fun call' hcall => ?_
    exact ensures_emit_pure ⟨.go hcall, hΓ⟩
  | .defer call _, hn => by
    obtain ⟨-, hcall⟩ := within_cons.mp hn
    refine Computes.bind (read_redirects hΓ hcall (redirectExpr_redirects hΓ call hcall))
      fun call' hcall => ?_
    exact ensures_emit_pure ⟨.defer hcall, hΓ⟩
  | .cond branch, hn => by
    obtain ⟨-, hbranch⟩ := within_cons.mp hn
    refine Computes.bind (redirectIf_redirects hΓ branch hbranch) fun branch' hbranch => ?_
    exact ensures_emit_pure ⟨.cond hbranch, hΓ⟩
  | .loop clause body _, hn => by
    obtain ⟨hloop, hclause, hbody⟩ := within_pair.mp hn
    obtain ⟨-, hpost⟩ := Bool.and_eq_true_iff.mp hloop
    refine Computes.bind
      (redirectClause_redirects hΓ clause (List.isEmpty_iff.mp hpost) hclause)
      fun ⟨clause', inner⟩ ⟨hclause, hinner⟩ => ?_
    refine Computes.bind (redirectBlock_redirects hinner body hbody) fun body' hbody => ?_
    exact ensures_emit_pure ⟨.loop hclause hbody, hΓ⟩
  | .block body, hn => by
    obtain ⟨-, hbody⟩ := within_cons.mp hn
    refine Computes.bind (redirectBlock_redirects hΓ body hbody) fun body' hbody => ?_
    exact ensures_emit_pure ⟨.block hbody, hΓ⟩
  | .breakLoop _, _ => ensures_emit_pure ⟨.breakLoop, hΓ⟩
  | .continueLoop _, _ => ensures_emit_pure ⟨.continueLoop, hΓ⟩

theorem redirectIf_redirects {bound : Bound} {Γ : Visible} (hΓ : Follows bound Γ) :
    ∀ branch : If, Within Node.hasPlainHeader branch.nodes →
      (redirectIf cx bound branch).Computes (RedirectedIf cx Γ branch)
  | ⟨condition, thenBlock, otherwise, _⟩, hn => by
    obtain ⟨hn, hotherwise⟩ := within_append.mp hn
    obtain ⟨hcondition, hthen⟩ := within_append.mp hn
    refine Computes.bind
      (read_redirects hΓ hcondition (redirectExpr_redirects hΓ condition hcondition))
      fun condition' hcondition => ?_
    refine Computes.bind (redirectBlock_redirects hΓ thenBlock hthen) fun thenBlock' hthen => ?_
    refine Computes.bind (redirectElse_redirects hΓ otherwise hotherwise)
      fun otherwise' hotherwise => ?_
    exact Computes.pure (.mk hcondition hthen hotherwise)

theorem redirectElse_redirects {bound : Bound} {Γ : Visible} (hΓ : Follows bound Γ) :
    ∀ otherwise : Else, Within Node.hasPlainHeader otherwise.nodes →
      (redirectElse cx bound otherwise).Computes (RedirectedElse cx Γ otherwise)
  | .none, _ => Computes.pure .none
  | .block body, hn =>
    Computes.bind (redirectBlock_redirects hΓ body hn) fun _ hbody => Computes.pure (.block hbody)
  | .elseIf branch, hn =>
    Computes.bind (redirectIf_redirects hΓ branch hn)
      fun _ hbranch => Computes.pure (.elseIf hbranch)

theorem redirectClause_redirects {bound : Bound} {Γ : Visible} (hΓ : Follows bound Γ) :
    ∀ clause : Clause, clause.postDeclares = [] → Within Node.hasPlainHeader clause.nodes →
      (redirectClause cx bound clause).Computes fun x =>
        RedirectedClause cx Γ clause x.1 ∧ Follows x.2 (clause.declares ++ Γ)
  | .infinite, _, _ => Computes.pure ⟨.infinite, hΓ⟩
  | .condition test, _, hn =>
    Computes.bind (read_redirects hΓ hn (redirectExpr_redirects hΓ test hn))
      fun _ htest => Computes.pure ⟨.condition htest, hΓ⟩
  | .three first condition post, hdeclares, hn => by
    obtain ⟨hn, hpost⟩ := within_append.mp hn
    obtain ⟨hfirst, hcondition⟩ := within_append.mp hn
    refine Computes.bind (redirectHeader_redirects hΓ first hfirst)
      fun ⟨first', inner⟩ ⟨hfirst, hinner⟩ => ?_
    refine Computes.bind (readExpr?_redirects hinner condition hcondition)
      fun condition' hcondition => ?_
    refine Computes.bind (redirectHeader_redirects hinner post hpost)
      fun ⟨post', last⟩ ⟨hpost, hlast⟩ => ?_
    refine Computes.pure ⟨.three hfirst hcondition hpost, ?_⟩
    -- The post statement declares nothing, so its scope is that of the body.
    have hdeclares : Stmt.declaresOption post = [] := hdeclares
    rw [hdeclares, List.nil_append] at hlast
    exact hlast
  | .range key value define source, _, hn => by
    have hinner : Follows
        (if define then bound.hide ((key.toList ++ value.toList).map (·.name)) else bound)
        ((Clause.range key value define source).declares ++ Γ) := by
      cases define with
      | true => exact hΓ.hide ((key.toList ++ value.toList).map (·.name))
      | false => exact hΓ
    have hfinish : (read bound source (redirectExpr cx bound source) >>= fun source' =>
        pure (Clause.range key value define source',
          if define then bound.hide ((key.toList ++ value.toList).map (·.name))
          else bound)).Computes fun x =>
        RedirectedClause cx Γ (.range key value define source) x.1 ∧
          Follows x.2 ((Clause.range key value define source).declares ++ Γ) :=
      Computes.bind (read_redirects hΓ hn (redirectExpr_redirects hΓ source hn))
        fun _ hsource => Computes.pure ⟨.range hsource, hinner⟩
    unfold redirectClause
    cases source with
    | ident name span => exact Ensures.ite (fun _ => ensures_report_bind _ _) fun _ => hfinish
    | _ => exact hfinish

theorem redirectHeader_redirects {bound : Bound} {Γ : Visible} (hΓ : Follows bound Γ) :
    ∀ stmt : Option Stmt, Within Node.hasPlainHeader (Stmt.nodesOption stmt) →
      (redirectHeader cx bound stmt).Computes fun x =>
        RedirectedHeader cx Γ stmt x.1 ∧ Follows x.2 (Stmt.declaresOption stmt ++ Γ)
  | none, _ => Computes.pure ⟨.none, hΓ⟩
  | some stmt, hn => by
    have hstmt : (redirectStmt cx bound stmt).Ensures fun after code =>
        RedirectedStmt cx Γ stmt code ∧ Follows after (stmt.declares ++ Γ) :=
      redirectStmt_redirects hΓ stmt hn
    have hfinish (hbind : ∀ names call span, stmt ≠ .bind names call span) :
        ((redirectStmt cx bound stmt).collect >>= fun x =>
          pure (x.2.getLast?, x.1) : Pass (Option Stmt × Bound)).Computes fun x =>
            RedirectedHeader cx Γ (some stmt) x.1 ∧ Follows x.2 (stmt.declares ++ Γ) := by
      refine Computes.bind hstmt.collect fun ⟨after, code⟩ ⟨hcode, hafter⟩ => ?_
      obtain ⟨stmt', rfl⟩ := hcode.exists_singleton hbind
      exact Computes.pure ⟨.some hcode, hafter⟩
    cases stmt with
    | bind names call span => exact ensures_report_bind _ _
    | _ => exact hfinish nofun
end

/-! ### The pass over a unit -/

/-- In the body of a function all receives are redirected as the scope rules say. -/
theorem lowerFunction_redirects {table : SignatureTable} {settings : Settings} {f : Function}
    (hheaders : ∀ node ∈ f.body.nodes, node.hasPlainHeader = true) :
    (lowerFunction table settings f).Yields fun f' => ∃ body, f' = { f with body } ∧
      RedirectedBlock { Scope.ofFunction table f with settings } [] f.body body := by
  let cx : Context := { Scope.ofFunction table f with settings }
  have hbody : (redirectBlock cx [] f.body).Computes (RedirectedBlock cx [] f.body) :=
    redirectBlock_redirects follows_nil f.body hheaders
  have hrun : ((redirectBlock cx [] f.body).runWith (.avoiding settings.stem f.names)).Yields
      (RedirectedBlock cx [] f.body) :=
    fun hfaults => (hbody _ hfaults).2
  refine hrun.bind fun body hbody => ?_
  exact (Noted.yields_record _).bind fun _ _ => .pure ⟨body, rfl, hbody⟩

/-- A function without a go-binding is left alone, and the judgement leaves it as it is. -/
theorem lowerItem_redirects (table : SignatureTable) (settings : Settings) (item : Item) :
    (lowerItem table settings item).Yields fun item' =>
      ∀ f, item = .func f → (∀ node ∈ f.body.nodes, node.hasPlainHeader = true) →
        ∃ body, item' = .func { f with body } ∧
          RedirectedBlock { Scope.ofFunction table f with settings } [] f.body body := by
  intro hfaults
  rintro f rfl hheaders
  by_cases hbinding : f.body.hasBinding = true
  · simp only [lowerItem, hbinding, if_true] at hfaults ⊢
    -- The item is made of the function without further notes.
    rw [Noted.notes_bind, Notes.faults_append, List.append_eq_nil_iff] at hfaults
    obtain ⟨body, hf', hbody⟩ := lowerFunction_redirects hheaders hfaults.1
    exact ⟨body, congrArg Item.func hf', hbody⟩
  · simp only [lowerItem, hbinding]
    have hplain : f.body.hasBindingIn false = false := by simpa [Block.hasBinding] using hbinding
    exact ⟨f.body, rfl, redirectedBlock_refl follows_nil false f.body hplain (by simp) hheaders⟩

end Dispatch

/-- Receives are redirected by lexical scope: in a unit that is dispatched without a fault, the body
of every function whose loop headers are plain becomes what the judgement says, where at first no
declaration is visible. For a receive from a name this is spelled out by
`Dispatch.Redirected.receive_eq`. -/
theorem dispatchTasks_redirects {table : SignatureTable} {settings : Settings}
    {program lowered : Program} (h : (dispatchTasks table settings program).outcome = .ok lowered)
    {i : Nat} {f : Function} (hf : program.items[i]? = some (.func f))
    (hheaders : ∀ node ∈ f.body.nodes, node.hasPlainHeader = true) :
    ∃ body, lowered.items[i]? = some (.func { f with body }) ∧
      Dispatch.RedirectedBlock { Scope.ofFunction table f with settings } [] f.body body := by
  obtain ⟨item', hitem', hredirected⟩ := (dispatchTasks_yields_getElem?
    (Dispatch.lowerItem_redirects table settings) hf).of_outcome h
  obtain ⟨body, rfl, hbody⟩ := hredirected f rfl hheaders
  exact ⟨body, hitem', hbody⟩

/-- The signature of `load() int`. -/
def loadSignatures : SignatureTable where
  functions := [("load", {
    name := "load"
    params := []
    returns := { declared := [.named "int"], values := [.named "int"] } })]

/-- The statement `use(<-a)`. -/
def useReceived : Stmt :=
  .expr (.apply (.name "use") [.unary .receive (.name "a") .nowhere])

/-- `a := go load(); use(<-a); for a := c; ; { use(<-a) }; go func(a int) { use(<-a) }(1)`, in which
the loop and the function literal declare `a` again, and a conditional that does not. -/
def shadowing : Function where
  name := "shadowing"
  receiver := none
  params := []
  returns := none
  body := .inserted [
    .bind [{ name := "a" }] (.apply (.name "load") []) .nowhere,
    useReceived,
    .loop (.three (some (Stmt.define ["a"] [.name "c"])) none none) (.inserted [useReceived])
      .nowhere,
    .go (.apply (.func [{ name := "a", ty := .named "int" }] none (.inserted [useReceived])
      .nowhere) [.int 1]) .nowhere,
    Stmt.onlyIf (.name "b") [useReceived]]

/-- The unit of the function alone. -/
def shadowingUnit : Program where
  name := "shadowing"
  package := "main"
  imports := []
  items := [.func shadowing]

/-- In `shadowing` the receives from the name `a` are told apart: only those that see the go-binding
read a state. -/
theorem dispatchTasks_redirects_shadowing :
    let pass := dispatchTasks loadSignatures {} shadowingUnit
    pass.outcome = .ok pass.value ∧
      (∀ node ∈ shadowing.body.nodes, node.hasPlainHeader = true) ∧
      ∃ body, pass.value.items[0]? = some (.func { shadowing with body }) ∧
        Dispatch.RedirectedBlock
          { Scope.ofFunction loadSignatures shadowing with settings := {} } [] shadowing.body
          body := by
  have hfaults : (dispatchTasks loadSignatures {} shadowingUnit).notes.faults = [] := rfl
  have hheaders : ∀ node ∈ shadowing.body.nodes, node.hasPlainHeader = true := by decide
  have houtcome : (dispatchTasks loadSignatures {} shadowingUnit).outcome =
      .ok (dispatchTasks loadSignatures {} shadowingUnit).value :=
    Noted.outcome_eq_ok.mpr ⟨hfaults, rfl⟩
  have hitem : shadowingUnit.items[0]? = some (.func shadowing) := rfl
  exact ⟨houtcome, hheaders, dispatchTasks_redirects houtcome hitem hheaders⟩

end Desugar
