import Desugar.Proofs.Dispatch.Complete
import Desugar.Proofs.Dispatch.Wiring
import Desugar.Proofs.Pass.Covers

/-!
# Dispatching tasks loses nothing but go-bindings

The lowering of go-bindings leaves the code around them in place, and captures the operands of the
calls that it moves into tasks. So what a survey gathers in a body it gathers afterwards too, except
for the go-bindings themselves. Of each of these a dispatch is noted.

- `Survey.NotesTasks`: a go-binding counts for no more than this note.
- `Dispatch.redirectBlock_covers` and the theorems beside it: one for each function of the pass.
- `dispatchTasks_gathers`: what is gathered in a unit.
-/

namespace Desugar

variable {L : Type} [SemilatticeSup L] [OrderBot L] {survey : Survey L}

/-- Go-bindings count for no more than their dispatch, and names and thrown texts do not count. -/
structure Survey.NotesTasks (survey : Survey L) : Prop where
  settled : survey.settled = survey
  name : ∀ x, survey.name x = ⊥
  bind : ∀ header names callee states, survey.declare header .bind names ≤
    survey.noted { events := [.dispatched callee states] }

namespace Survey.NotesTasks

variable {α β : Type} {header : Bool} {source : L} {p : Pass α} {f : α → Pass β} {final : β → L}

/-- References to names do not count. -/
theorem names_eq (hs : survey.NotesTasks) (xs : List String) : survey.names xs = ⊥ := by
  induction xs with
  | nil => rfl
  | cons x rest ih => rw [names_cons, hs.name, ih, sup_bot_eq]

/-- The names that are taken do not count. -/
theorem after (hs : survey.NotesTasks) (hp : p.Draws)
    (hf : ∀ a, (f a).Covers survey header source final) :
    (p >>= f).Covers survey header source final := by
  have hnames : p.Covers survey header ⊥ fun _ => ⊥ := by
    intro supply _
    obtain ⟨xs, hxs, -⟩ := hp supply
    refine ⟨xs, hxs, ?_⟩
    rw [hs.names_eq, sup_bot_eq]
    exact bot_le
  have hbind : (p >>= f).Covers survey header (⊥ ⊔ source) final :=
    hnames.bind fun a => (hf a).mono (bot_sup_eq source).le
  exact hbind.mono (bot_sup_eq source).ge

end Survey.NotesTasks

namespace Dispatch

open Pass

variable {cx : Context}

/-! ### Names that are taken

Where only the supply matters, all names may count as known. -/

theorem rejectCommaOk_draws (bound : Bound) (targets : Nat) (values : List Expr) :
    (rejectCommaOk bound targets values).Draws := by
  have hsettles : (rejectCommaOk bound targets values).Settles false (.named []) [] fun _ => [] :=
    rejectCommaOk_settles bound targets values
  exact hsettles.draws

theorem taskBody_draws (names : List Ident) (call : Expr) (span : Span) :
    (taskBody names (stateNames names) call span).Draws := by
  have hself : Within ((Node.Trait.named (insertedNames {})).good _)
      (Expr.nodesList ((names.map (·.name)).map Expr.name) ++ call.nodes) := .named_self
  obtain ⟨hnames, hcall⟩ := within_append.mp hself
  exact (taskBody_settles span hnames hcall).draws

/-! ### One go-binding -/

section Binding

variable (hs : survey.NotesTasks) (header : Bool)

include hs

/-- A captured operand is gathered in the definition of its temporary. -/
theorem capture_covers (e : Expr) :
    (capture e).Covers survey header (survey.expr e) fun _ => ⊥ := by
  refine hs.after (.fresh fun _ _ => trivial) fun name => ?_
  exact .emit_bind (le_sup_right.trans (survey.le_define header [name] e [])) fun _ => rfl

/-- A callee with a known signature is a name, or is captured. -/
theorem captureCallee_covers {callee : Expr} {sig : Signature}
    (h : cx.resolve? callee = some sig) :
    (captureCallee callee).Covers survey header (survey.expr callee) fun _ => ⊥ := by
  cases callee with
  | ident x span => exact .pure (hs.name x).le
  | selector base field span => exact capture_covers hs header _
  | _ => cases h

/-- Arguments are gathered in temporaries or where they are passed. -/
theorem captureArgs_covers (args : List Expr) :
    (captureArgs args).Covers survey header (survey.exprs args) fun _ => ⊥ := by
  induction args with
  | nil => exact .pure le_rfl
  | cons arg rest ih =>
    have hrest (arg' : Expr) : (captureArgs rest >>= fun rest => pure (arg' :: rest)).Covers survey
        header (survey.exprs rest) fun _ => ⊥ := ih.next fun _ => .pure le_rfl
    rw [Survey.exprs_cons]
    refine .ite (fun hconstant => ?_) fun _ => ?_
    · have harg : survey.expr arg = ⊥ := by
        cases arg with
        | lit | ofType => rfl
        | _ => cases hconstant
      rw [harg, bot_sup_eq]
      exact hrest arg
    · refine (capture_covers hs header arg).bind fun arg' => ?_
      rw [bot_sup_eq]
      exact hrest arg'

/-- What is left of the operands does not count, and a note is taken of the task. -/
theorem dispatchCall_covers (names : List Ident) {sig : Signature} {callee : Expr}
    (args : List Expr) (callSpan span : Span) (h : cx.resolve? callee = some sig) :
    (dispatchCall cx names sig callee args callSpan span).Covers survey header
      (survey.declare header .bind names ⊔ survey.expr (.call callee args callSpan))
      fun _ => ⊥ := by
  rw [Survey.expr_call, sup_left_comm]
  refine .after (fun _ => rfl) fun _ => ?_
  refine (captureCallee_covers hs header h).bind fun callee' => ?_
  rw [bot_sup_eq]
  refine (captureArgs_covers hs header args).bindRight fun args' => ?_
  rw [sup_bot_eq]
  refine hs.after (taskBody_draws names _ span) fun body => ?_
  exact .after (fun _ => rfl) fun _ => .note (hs.bind header names _ _)

/-- What counts in a go-binding is gathered in the code of its task, or noted. -/
theorem dispatch_covers (names : List Ident) (call : Expr) (span : Span) :
    (dispatch cx names call span).Covers survey header
      (survey.declare header .bind names ⊔ survey.expr call) fun _ => ⊥ := by
  intro supply hfaults
  obtain ⟨callee, args, callSpan, sig, rfl, hsig, -, hdispatch⟩ := dispatch_cases hfaults
  rw [hdispatch] at hfaults ⊢
  exact dispatchCall_covers hs header names args callSpan span hsig supply hfaults

end Binding

/-! ### The pass -/

/-- An expression of a statement is gathered, whether it is redirected or left as it is. -/
theorem read_covers {header : Bool} {bound : Bound} {e : Expr}
    (h : (redirectExpr cx bound e).Covers survey header (survey.expr e) survey.expr) :
    (read bound e (redirectExpr cx bound e)).Covers survey header (survey.expr e) survey.expr :=
  .ite (fun _ => .pure le_rfl) fun _ => h

/-- The operand of a receive is gathered in the read of a state, too. -/
theorem le_receive (bound : Bound) (operand : Expr) (span : Span) :
    survey.expr operand ≤ survey.expr (receive bound operand span) := by
  unfold receive
  split
  · exact le_sup_left
  · exact le_rfl

/-- A statement of a loop header stays a single one. -/
theorem collect_covers {header : Bool} {bound : Bound} {stmt : Stmt} (hbind : stmt.isBind = false)
    (h : (redirectStmt cx bound stmt).Covers survey true (survey.stmt true stmt) fun _ => ⊥) :
    (redirectStmt cx bound stmt).collect.Covers survey header (survey.headerStmt (some stmt))
      fun x => survey.headerStmt x.2.getLast? := by
  intro supply hfaults
  obtain ⟨xs, hxs, hcovers⟩ := h supply hfaults
  have hother : ∀ names call span, stmt ≠ .bind names call span := by
    rintro names call span rfl
    cases hbind
  obtain ⟨stmt', hcode, -⟩ := redirectStmt_emitsOne bound hother supply
  refine ⟨xs, hxs, ?_⟩
  rw [Step.gathered, hcode, bot_sup_eq, Survey.stmts_singleton] at hcovers
  rw [Survey.headerStmt_some, if_neg (Bool.eq_false_iff.mp hbind), bot_sup_eq, Step.gathered,
    value_collect, hcode, List.getLast?_singleton, Survey.headerStmt_some]
  exact hcovers.trans (sup_le_sup_right (le_sup_of_le_left le_sup_right) _)

section Body

-- In a mutual induction the linter does not see a hypothesis that is used in another theorem.
set_option linter.unusedSectionVars false

variable (hs : survey.NotesTasks)

include hs

mutual
/-- Nothing that counts is lost in redirection, by recursion on the tree. -/
theorem redirectExpr_covers (header : Bool) (bound : Bound) :
    ∀ e : Expr, (redirectExpr cx bound e).Covers survey header (survey.expr e) survey.expr
  | .ident _ _ => .pure le_rfl
  | .lit _ _ => .pure le_rfl
  | .ofType _ _ => .pure le_rfl
  | .call callee args _ => by
    rw [Survey.expr_call]
    refine (redirectExpr_covers header bound callee).bind fun callee' => ?_
    exact (redirectExprs_covers header bound args).bindRight fun args' => .pure le_rfl
  | .template segments _ =>
    (redirectSegments_covers header bound segments).bindRight fun _ => .pure le_rfl
  | .attempt operand _ => (redirectExpr_covers header bound operand).next fun _ => .pure le_rfl
  | .binary _ left right _ => by
    rw [Survey.expr_binary]
    refine (redirectExpr_covers header bound left).bind fun left' => ?_
    exact (redirectExpr_covers header bound right).bindRight fun right' => .pure le_rfl
  | .unary op operand span => by
    refine (redirectExpr_covers header bound operand).next fun operand' => ?_
    cases op with
    | receive => exact .pure (le_receive bound operand' span)
    | _ => exact .pure le_rfl
  | .selector base _ _ => (redirectExpr_covers header bound base).next fun _ => .pure le_rfl
  | .index base index _ => by
    rw [Survey.expr_index]
    refine (redirectExpr_covers header bound base).bind fun base' => ?_
    exact (redirectExpr_covers header bound index).bindRight fun index' => .pure le_rfl
  | .composite _ elements _ =>
    (redirectElements_covers header bound elements).next fun _ => .pure le_rfl
  | .func params _ body _ =>
    .func (redirectBlock_emits _ body)
      (redirectBlock_covers survey.literal header (bound.hide (params.map (·.name))) body)

theorem redirectExprs_covers (header : Bool) (bound : Bound) :
    ∀ es : List Expr, (redirectExprs cx bound es).Covers survey header (survey.exprs es)
      survey.exprs
  | [] => .pure le_rfl
  | e :: rest => by
    rw [Survey.exprs_cons]
    refine (redirectExpr_covers header bound e).bind fun e' => ?_
    exact (redirectExprs_covers header bound rest).bindRight fun rest' => .pure le_rfl

theorem redirectExpr?_covers (header : Bool) (bound : Bound) :
    ∀ e : Option Expr, (redirectExpr? cx bound e).Covers survey header (survey.exprOption e)
      survey.exprOption
  | none => .pure le_rfl
  | some e => (redirectExpr_covers header bound e).next fun _ => .pure le_rfl

theorem redirectSegments_covers (header : Bool) (bound : Bound) :
    ∀ segments : List Segment, (redirectSegments cx bound segments).Covers survey header
      (survey.segments segments) survey.segments
  | [] => .pure le_rfl
  | .text _ :: rest => (redirectSegments_covers header bound rest).next fun _ => .pure le_rfl
  | .embed value _ _ :: rest => by
    rw [Survey.segments_embed]
    refine (redirectExpr_covers header bound value).bind fun value' => ?_
    exact (redirectSegments_covers header bound rest).bindRight fun rest' => .pure le_rfl

theorem redirectElements_covers (header : Bool) (bound : Bound) :
    ∀ elements : List Element, (redirectElements cx bound elements).Covers survey header
      (survey.elements elements) survey.elements
  | [] => .pure le_rfl
  | ⟨key, value⟩ :: rest => by
    rw [Survey.elements_cons, sup_assoc]
    refine (redirectExpr?_covers header bound key).bind fun key' => ?_
    rw [sup_left_comm]
    refine (redirectExpr_covers header bound value).bind fun value' => ?_
    rw [sup_left_comm, ← sup_assoc]
    exact (redirectElements_covers header bound rest).bindRight fun rest' => .pure le_rfl

theorem readExprs_covers (header : Bool) (bound : Bound) :
    ∀ es : List Expr, (readExprs cx bound es).Covers survey header (survey.exprs es) survey.exprs
  | [] => .pure le_rfl
  | e :: rest => by
    rw [Survey.exprs_cons]
    refine (read_covers (redirectExpr_covers header bound e)).bind fun e' => ?_
    exact (readExprs_covers header bound rest).bindRight fun rest' => .pure le_rfl

theorem readExpr?_covers (header : Bool) (bound : Bound) :
    ∀ e : Option Expr, (readExpr? cx bound e).Covers survey header (survey.exprOption e)
      survey.exprOption
  | none => .pure le_rfl
  | some e => (read_covers (redirectExpr_covers header bound e)).next fun _ => .pure le_rfl

theorem redirectBlock_covers (header outer : Bool) (bound : Bound) :
    ∀ block : Block, (redirectBlock cx bound block).Covers survey outer
      (survey.block header block) (survey.block header)
  | ⟨stmts, _⟩ =>
    ((redirectStmts_covers header bound stmts).collect outer).next fun _ =>
      .pure (bot_sup_eq _).le

theorem redirectStmts_covers (header : Bool) (bound : Bound) :
    ∀ stmts : List Stmt, (redirectStmts cx bound stmts).Covers survey header
      (survey.stmts header stmts) fun _ => ⊥
  | [] => .pure le_rfl
  | stmt :: rest => by
    rw [Survey.stmts_cons]
    refine (redirectStmt_covers header bound stmt).bind fun bound' => ?_
    rw [bot_sup_eq]
    exact redirectStmts_covers header bound' rest

theorem redirectStmt_covers (header : Bool) (bound : Bound) :
    ∀ stmt : Stmt, (redirectStmt cx bound stmt).Covers survey header (survey.stmt header stmt)
      fun _ => ⊥
  | .bind names call span => by
    rw [Survey.stmt_bind]
    refine (read_covers (redirectExpr_covers header bound call)).bindRight fun call' => ?_
    exact (dispatch_covers hs header names call' span).next fun _ => .pure le_rfl
  | .assign targets op values span => by
    rw [Survey.stmt_assign]
    refine hs.after (rejectCommaOk_draws bound _ _) fun _ => ?_
    refine (readExprs_covers header bound values).bindRight fun values' => ?_
    refine (readExprs_covers header bound targets).bind fun targets' => ?_
    refine .emitOne_bind (.assign targets' op values' span) le_rfl fun _ => ?_
    split <;> rfl
  | .var names ty values span => by
    rw [Survey.stmt_var]
    refine hs.after (rejectCommaOk_draws bound _ _) fun _ => ?_
    refine (readExprs_covers header bound values).bindRight fun values' => ?_
    exact .emitOne_bind (.var names ty values' span) le_rfl fun _ => rfl
  | .expr value =>
    (read_covers (redirectExpr_covers header bound value)).next fun value' =>
      .emitOne_bind (.expr value') le_rfl fun _ => rfl
  | .ret values span =>
    (readExprs_covers header bound values).next fun values' =>
      .emitOne_bind (.ret values' span) le_rfl fun _ => rfl
  | .throw value span => by
    rw [Survey.stmt_throw_of_settled hs.settled]
    refine (read_covers (redirectExpr_covers header bound value)).next fun value' => ?_
    exact .emitOne_bind (.throw value' span) (Survey.stmt_throw_of_settled hs.settled).ge
      fun _ => rfl
  | .go call span =>
    (read_covers (redirectExpr_covers header bound call)).next fun call' =>
      .emitOne_bind (.go call' span) le_rfl fun _ => rfl
  | .defer call span =>
    (read_covers (redirectExpr_covers header bound call)).next fun call' =>
      .emitOne_bind (.defer call' span) le_rfl fun _ => rfl
  | .cond branch =>
    (redirectIf_covers header bound branch).next fun branch' =>
      .emitOne_bind (.cond branch') le_rfl fun _ => rfl
  | .loop clause body span => by
    rw [Survey.stmt_loop]
    refine (redirectClause_covers header bound clause).bind fun x => ?_
    refine (redirectBlock_covers header header x.2 body).bindRight fun body' => ?_
    exact .emitOne_bind (.loop x.1 body' span) le_rfl fun _ => rfl
  | .block body =>
    (redirectBlock_covers header header bound body).next fun body' =>
      .emitOne_bind (.block body') le_rfl fun _ => rfl
  | .breakLoop span => .emitOne_bind (.breakLoop span) bot_le fun _ => rfl
  | .continueLoop span => .emitOne_bind (.continueLoop span) bot_le fun _ => rfl

theorem redirectIf_covers (header : Bool) (bound : Bound) :
    ∀ branch : If, (redirectIf cx bound branch).Covers survey header
      (survey.branch header branch) (survey.branch header)
  | ⟨condition, thenBlock, otherwise, span⟩ => by
    rw [Survey.branch_mk, sup_assoc]
    refine (read_covers (redirectExpr_covers header bound condition)).bind fun condition' => ?_
    rw [sup_left_comm]
    refine (redirectBlock_covers header header bound thenBlock).bind fun thenBlock' => ?_
    rw [sup_left_comm, ← sup_assoc]
    exact (redirectElse_covers header bound otherwise).bindRight fun otherwise' => .pure le_rfl

theorem redirectElse_covers (header : Bool) (bound : Bound) :
    ∀ otherwise : Else, (redirectElse cx bound otherwise).Covers survey header
      (survey.otherwise header otherwise) (survey.otherwise header)
  | .none => .pure le_rfl
  | .block body => (redirectBlock_covers header header bound body).next fun _ => .pure le_rfl
  | .elseIf branch => (redirectIf_covers header bound branch).next fun _ => .pure le_rfl

theorem redirectClause_covers (header : Bool) (bound : Bound) :
    ∀ clause : Clause, (redirectClause cx bound clause).Covers survey header
      (survey.clause header clause) fun x => survey.clause header x.1
  | .infinite => .pure le_rfl
  | .condition test =>
    (read_covers (redirectExpr_covers header bound test)).next fun _ => .pure le_rfl
  | .three first condition post => by
    rw [Survey.clause_three, sup_assoc]
    refine (redirectHeader_covers header bound first).bind fun ⟨first', bound⟩ => ?_
    rw [sup_left_comm]
    refine (readExpr?_covers header bound condition).bind fun condition' => ?_
    rw [sup_left_comm, ← sup_assoc]
    exact (redirectHeader_covers header bound post).bindRight fun _ => .pure le_rfl
  | .range key value define source => by
    -- Both ways to check the source end in the same step.
    have hfinish : (read bound source (redirectExpr cx bound source) >>= fun source =>
        pure (Clause.range key value define source,
          if define then bound.hide ((key.toList ++ value.toList).map (·.name)) else bound)).Covers
        survey header (survey.clause header (.range key value define source))
        fun x => survey.clause header x.1 := by
      rw [Survey.clause_range]
      exact (read_covers (redirectExpr_covers header bound source)).bindRight fun _ =>
        .pure le_rfl
    unfold redirectClause
    cases source with
    | ident name span => exact .ite (fun _ => .report_bind _ _) fun _ => hfinish
    | _ => exact hfinish

theorem redirectHeader_covers (header : Bool) (bound : Bound) :
    ∀ stmt : Option Stmt, (redirectHeader cx bound stmt).Covers survey header
      (survey.headerStmt stmt) fun x => survey.headerStmt x.1
  | none => .pure le_rfl
  | some stmt => by
    have hstmt : (redirectStmt cx bound stmt).Covers survey true (survey.stmt true stmt)
        fun _ => ⊥ := redirectStmt_covers true bound stmt
    cases stmt with
    | bind names call span => exact .report_bind _ _
    | _ => exact (collect_covers rfl hstmt).next fun _ => .pure le_rfl
end

end Body

/-! ### The pass over a unit -/

/-- What counts in an item is gathered in what becomes of it, or noted. -/
theorem lowerItem_gathers (hs : survey.NotesTasks) (table : SignatureTable) (settings : Settings)
    (item : Item) :
    (lowerItem table settings item).Covers survey (survey.item item) survey.item := by
  cases item with
  | func f =>
    let cx : Context := { Scope.ofFunction table f with settings }
    have hbody : ((redirectBlock cx [] f.body).runWith (.avoiding settings.stem f.names)).Covers
        survey (survey.block false f.body) (survey.block false) := by
      intro hfaults
      have hblock : (redirectBlock cx [] f.body).Covers survey false (survey.block false f.body)
          (survey.block false) := redirectBlock_covers hs false false [] f.body
      obtain ⟨xs, -, hcovers⟩ := hblock _ hfaults
      rw [Step.gathered, redirectBlock_emits, Survey.stmts_nil, sup_bot_eq] at hcovers
      exact le_sup_right.trans hcovers
    have hfunction : (lowerFunction table settings f).Covers survey (survey.block false f.body)
        fun f' => survey.block false f'.body :=
      hbody.next fun _ => .after fun _ => .pure le_rfl
    rw [lowerItem]
    split
    · exact hfunction.next fun _ => .pure le_rfl
    · exact .pure le_rfl
  | _ => exact .pure le_rfl

/-- The support item takes nothing away from what is gathered. -/
theorem gatherAll_withSupport (stem : String) (items : List Item) :
    gatherAll survey.item items ≤ gatherAll survey.item (withSupport stem items) := by
  refine gatherAll_le fun item hitem => le_gatherAll ?_
  unfold withSupport
  split
  · exact hitem
  · exact List.mem_append_left _ hitem

end Dispatch

/-- What is gathered in a unit is gathered in what becomes of it or in the notes. -/
theorem dispatchTasks_gathers (hs : survey.NotesTasks) (table : SignatureTable)
    (settings : Settings) (program : Program) :
    (dispatchTasks table settings program).Covers survey (gatherAll survey.item program.items)
      fun program' => gatherAll survey.item program'.items := by
  refine (Noted.Covers.mapM (Dispatch.lowerItem_gathers hs table settings) program.items).next
    fun items => ?_
  split
  · exact .after fun _ => .pure (Dispatch.gatherAll_withSupport settings.stem items)
  · exact .pure le_rfl

end Desugar
