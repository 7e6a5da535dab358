import Desugar.Dispatch
import Desugar.Proofs.Pass.Yields

/-!
# No go-binding is left

Where go-bindings are dispatched without a fault, none is left outside loop headers: each is
replaced by code without any, and one in a header is a fault. A second pass over the same function
would thus find nothing to do.

- `Dispatch.redirectExpr_unbinds` and the theorems beside it: one for each function of the pass.
- `Dispatch.lowerItem_unbinds`: what is left of an item.
-/

namespace Desugar

/-! ### Where go-bindings count -/

/-- The item is a function with a go-binding to dispatch. -/
def Item.hasBinding : Item → Bool
  | func decl => decl.body.hasBinding
  | _ => false

/-- Expressions have no go-binding if none of them has one. -/
theorem Expr.hasBindingList_eq_false {es : List Expr} :
    Expr.hasBindingList es = false ↔ ∀ e ∈ es, e.hasBinding = false := by
  induction es with
  | nil => simp [Expr.hasBindingList]
  | cons e rest ih => simp [Expr.hasBindingList, ih]

/-- Statements have no go-binding if none of them has one. -/
theorem Stmt.hasBindingInList_eq_false {header : Bool} {stmts : List Stmt} :
    Stmt.hasBindingInList header stmts = false ↔
      ∀ stmt ∈ stmts, stmt.hasBindingIn header = false := by
  induction stmts with
  | nil => simp [Stmt.hasBindingInList]
  | cons stmt rest ih => simp [Stmt.hasBindingInList, ih]

mutual
/-- In a loop header fewer go-bindings count. -/
theorem Block.hasBindingIn_header : ∀ block : Block, block.hasBindingIn false = false →
    block.hasBindingIn true = false
  | ⟨stmts, _⟩, h => Stmt.hasBindingInList_header stmts h

/-- Statements without a go-binding have none in a loop header either, where fewer statements count.
-/
theorem Stmt.hasBindingInList_header : ∀ stmts : List Stmt,
    Stmt.hasBindingInList false stmts = false → Stmt.hasBindingInList true stmts = false
  | [], _ => rfl
  | stmt :: rest, h => by
    obtain ⟨hstmt, hrest⟩ := Bool.or_eq_false_iff.mp h
    exact Bool.or_eq_false_iff.mpr
      ⟨Stmt.hasBindingIn_header stmt hstmt, Stmt.hasBindingInList_header rest hrest⟩

theorem Stmt.hasBindingIn_header : ∀ stmt : Stmt, stmt.hasBindingIn false = false →
    stmt.hasBindingIn true = false
  | .bind _ _ _, h => by cases h
  | .cond branch, h => If.hasBindingIn_header branch h
  | .loop clause body _, h => by
    obtain ⟨hclause, hbody⟩ := Bool.or_eq_false_iff.mp h
    exact Bool.or_eq_false_iff.mpr ⟨hclause, Block.hasBindingIn_header body hbody⟩
  | .block body, h => Block.hasBindingIn_header body h
  | .var _ _ _ _, h => h
  | .assign _ _ _ _, h => h
  | .expr _, h => h
  | .ret _ _, h => h
  | .throw _ _, h => h
  | .go _ _, h => h
  | .defer _ _, h => h
  | .breakLoop _, h => h
  | .continueLoop _, h => h

theorem If.hasBindingIn_header : ∀ branch : If, branch.hasBindingIn false = false →
    branch.hasBindingIn true = false
  | ⟨_, thenBlock, otherwise, _⟩, h => by
    obtain ⟨h, hotherwise⟩ := Bool.or_eq_false_iff.mp h
    obtain ⟨hcondition, hthen⟩ := Bool.or_eq_false_iff.mp h
    have hthen := Block.hasBindingIn_header thenBlock hthen
    exact Bool.or_eq_false_iff.mpr ⟨Bool.or_eq_false_iff.mpr ⟨hcondition, hthen⟩,
      Else.hasBindingIn_header otherwise hotherwise⟩

theorem Else.hasBindingIn_header : ∀ otherwise : Else, otherwise.hasBindingIn false = false →
    otherwise.hasBindingIn true = false
  | .none, h => h
  | .block body, h => Block.hasBindingIn_header body h
  | .elseIf branch, h => If.hasBindingIn_header branch h
end

namespace Dispatch

open Pass

/-- Statements without a go-binding, outside loop headers. -/
abbrev Unbound (stmts : List Stmt) : Prop := ∀ stmt ∈ stmts, stmt.hasBindingIn false = false

/-- Without a fault, neither the value nor the code has a go-binding. -/
abbrev Unbinds {α : Type} (p : Pass α) (binds : α → Bool) : Prop :=
  p.Emits (fun stmt => stmt.hasBindingIn false = false) fun a => binds a = false

/-- Without a fault, the code has no go-binding. -/
abbrev EmitsUnbound {α : Type} (p : Pass α) : Prop :=
  p.Emits (fun stmt => stmt.hasBindingIn false = false) fun _ => True

variable {cx : Context}

theorem unbound_singleton {stmt : Stmt} (h : stmt.hasBindingIn false = false) : Unbound [stmt] :=
  List.forall_mem_singleton.mpr h

/-! ### Inserted code -/

/-- A definition has no go-binding if its values have none. -/
theorem hasBindingIn_define (names : List String) {values : List Expr}
    (h : Expr.hasBindingList values = false) :
    (Stmt.define names values).hasBindingIn false = false := by
  refine Bool.or_eq_false_iff.mpr ⟨Expr.hasBindingList_eq_false.mpr fun e he => ?_, h⟩
  obtain ⟨name, -, rfl⟩ := List.mem_map.mp he
  rfl

/-- The call of an inserted function literal. -/
theorem hasBinding_task {body : List Stmt} (span : Span) (h : Unbound body) :
    (Expr.apply (.func [] none (.inserted body) span) []).hasBinding = false :=
  Bool.or_eq_false_iff.mpr ⟨Stmt.hasBindingInList_eq_false.mpr h, rfl⟩

/-- The deferred recovery has no go-binding. -/
theorem hasBindingIn_recovery (states : List String) (failure : String) (span : Span) :
    (recovery states failure span).hasBindingIn false = false := by
  have hfailures : Unbound
      (states.map fun state => .expr (Expr.method state "fail" [Expr.name failure])) := by
    intro stmt hstmt
    obtain ⟨state, -, rfl⟩ := List.mem_map.mp hstmt
    rfl
  have hbranch : (Stmt.onlyIf (Expr.isNotNil failure)
      (states.map fun state => .expr (Expr.method state "fail" [Expr.name failure]))).hasBindingIn
        false = false := by
    show (false || Stmt.hasBindingInList false _ || false) = false
    rw [Stmt.hasBindingInList_eq_false.mpr hfailures]
    rfl
  refine hasBinding_task span (List.forall_mem_cons.mpr ⟨?_, unbound_singleton hbranch⟩)
  exact hasBindingIn_define [failure] rfl

/-- The deliveries have no go-binding. -/
theorem unbound_deliveries (names : List Ident) (results : List String) :
    Unbound (deliveries names results) := by
  intro stmt hstmt
  obtain ⟨⟨name, result⟩, -, h⟩ := List.mem_filterMap.mp hstmt
  by_cases hblank : name.isBlank = true
  · simp [hblank] at h
  · obtain rfl : _ = stmt := by simpa [hblank] using h
    rfl

/-- Making up the names of results emits no go-binding. -/
theorem resultNames_emits : ∀ names : List Ident, EmitsUnbound (resultNames names)
  | [] => .pure trivial
  | name :: rest => by
    have hfinish (result : String) :
        EmitsUnbound (resultNames rest >>= fun rest => pure (result :: rest)) :=
      (resultNames_emits rest).bind fun _ _ => .pure trivial
    exact Emits.ite (fun _ => hfinish "_")
      fun _ => (emits_fresh "Val").bind fun result _ => hfinish result

/-- The body of a task has no go-binding if the call has none. -/
theorem taskBody_unbinds (names : List Ident) (states : List String) {call : Expr} (span : Span)
    (h : call.hasBinding = false) :
    (taskBody names states call span).Emits (fun stmt => stmt.hasBindingIn false = false)
      Unbound := by
  refine .ite (fun _ => .pure (unbound_singleton h)) fun _ => ?_
  refine (emits_fresh _).bind fun failure _ => ?_
  refine (resultNames_emits names).bind fun results _ => .pure ?_
  have hcall : Expr.hasBindingList [call] = false := Bool.or_eq_false_iff.mpr ⟨h, rfl⟩
  refine List.forall_mem_cons.mpr ⟨hasBindingIn_recovery states failure span, ?_⟩
  exact List.forall_mem_cons.mpr
    ⟨hasBindingIn_define results hcall, unbound_deliveries names results⟩

/-! ### Captured operands -/

/-- A captured operand has no go-binding if the operand has none. -/
theorem capture_unbinds {e : Expr} (h : e.hasBinding = false) :
    Unbinds (capture e) Expr.hasBinding := by
  refine (emits_fresh _).bind fun name _ => ?_
  have hvalues : Expr.hasBindingList [e] = false := Bool.or_eq_false_iff.mpr ⟨h, rfl⟩
  refine (emits_emit (unbound_singleton (hasBindingIn_define [name] hvalues))).bind fun _ _ => ?_
  exact .pure rfl

/-- A captured callee has no go-binding if the callee has none. -/
theorem captureCallee_unbinds {callee : Expr} (h : callee.hasBinding = false) :
    Unbinds (captureCallee callee) Expr.hasBinding := by
  unfold captureCallee
  split
  · exact capture_unbinds h
  · exact .pure h

/-- Captured arguments have no go-binding if the arguments have none. -/
theorem captureArgs_unbinds {args : List Expr} (h : Expr.hasBindingList args = false) :
    Unbinds (captureArgs args) Expr.hasBindingList := by
  induction args with
  | nil => exact .pure rfl
  | cons arg rest ih =>
    obtain ⟨harg, hrest⟩ := Bool.or_eq_false_iff.mp h
    have hfinish (arg : Expr) (harg : arg.hasBinding = false) :
        Unbinds (captureArgs rest >>= fun rest => pure (arg :: rest)) Expr.hasBindingList :=
      (ih hrest).bind fun rest hrest => .pure (Bool.or_eq_false_iff.mpr ⟨harg, hrest⟩)
    exact Emits.ite (fun _ => hfinish arg harg) fun _ => (capture_unbinds harg).bind hfinish

/-- The code of a go-binding has no go-binding itself if its operands have none. -/
theorem dispatchCall_emits (names : List Ident) (sig : Signature) {callee : Expr}
    {args : List Expr} (callSpan span : Span) (hcallee : callee.hasBinding = false)
    (hargs : Expr.hasBindingList args = false) :
    EmitsUnbound (dispatchCall cx names sig callee args callSpan span) := by
  refine (emits_emit ?_).bind fun _ _ => ?_
  · intro stmt hstmt
    obtain ⟨⟨name, ty⟩, -, h⟩ := List.mem_filterMap.mp hstmt
    by_cases hblank : name.isBlank = true
    · simp [hblank] at h
    · obtain rfl : _ = stmt := by simpa [hblank] using h
      rfl
  · refine (captureCallee_unbinds hcallee).bind fun callee hcallee => ?_
    refine (captureArgs_unbinds hargs).bind fun args hargs => ?_
    have hcall : (Expr.call callee args callSpan).hasBinding = false :=
      Bool.or_eq_false_iff.mpr ⟨hcallee, hargs⟩
    refine (taskBody_unbinds names _ span hcall).bind fun body hbody => ?_
    refine (emits_emit (unbound_singleton ?_)).bind fun _ _ => emits_record _
    exact hasBinding_task span hbody

/-- A go-binding without others in its call is replaced for good. -/
theorem dispatch_emits (names : List Ident) {call : Expr} (span : Span)
    (h : call.hasBinding = false) : EmitsUnbound (dispatch cx names call span) := by
  unfold dispatch
  split
  · obtain ⟨hcallee, hargs⟩ := Bool.or_eq_false_iff.mp h
    split
    · refine .ite (fun _ => emits_report _ _) fun _ => .ite (fun _ => emits_report _ _) fun _ => ?_
      exact dispatchCall_emits names _ _ span hcallee hargs
    · exact emits_report _ _
  · exact emits_report _ _

/-! ### Redirected receives -/

/-- What is not redirected has no go-binding anyway. -/
theorem read_unbinds {bound : Bound} {e : Expr} {redirected : Pass Expr}
    (h : Unbinds redirected Expr.hasBinding) :
    Unbinds (read bound e redirected) Expr.hasBinding := by
  refine .ite (fun hskip => .pure ?_) fun _ => h
  simpa using (Bool.and_eq_true_iff.mp hskip).2

/-- A read of a state has no go-binding if the operand of the receive has none. -/
theorem hasBinding_receive {bound : Bound} {operand : Expr} {span : Span}
    (h : operand.hasBinding = false) : (receive bound operand span).hasBinding = false := by
  unfold receive
  split
  · exact Bool.or_eq_false_iff.mpr ⟨h, rfl⟩
  · exact h

theorem rejectCommaOk_emits (bound : Bound) (targets : Nat) (values : List Expr) :
    EmitsUnbound (rejectCommaOk bound targets values) := by
  unfold rejectCommaOk
  split
  · split
    · exact emits_report _ _
    · exact .pure trivial
  · exact .pure trivial

/-- A statement is replaced by a single one. -/
theorem emit_emits {stmt : Stmt} (h : stmt.hasBindingIn false = false) (bound : Bound) :
    EmitsUnbound (Pass.emit [stmt] >>= fun _ => pure bound) :=
  (emits_emit (unbound_singleton h)).bind fun _ _ => .pure trivial

/-- The last statement of code without go-bindings may stand in a loop header. -/
theorem hasBindingOption_getLast? {code : List Stmt} (h : Unbound code) :
    Stmt.hasBindingOption code.getLast? = false := by
  cases hlast : code.getLast? with
  | none => rfl
  | some stmt => exact Stmt.hasBindingIn_header stmt (h stmt (List.mem_of_getLast? hlast))

/-! ### The pass over a body -/

mutual
/-- After redirection no go-binding is left, by recursion on the tree. -/
theorem redirectExpr_unbinds (bound : Bound) :
    ∀ e : Expr, Unbinds (redirectExpr cx bound e) Expr.hasBinding
  | .ident _ _ => .pure rfl
  | .lit _ _ => .pure rfl
  | .ofType _ _ => .pure rfl
  | .call callee args _ => by
    refine (redirectExpr_unbinds bound callee).bind fun callee hcallee => ?_
    refine (redirectExprs_unbinds bound args).bind fun args hargs => .pure ?_
    exact Bool.or_eq_false_iff.mpr ⟨hcallee, hargs⟩
  | .template segments _ =>
    (redirectSegments_unbinds bound segments).bind fun _ hsegments => .pure hsegments
  | .attempt operand _ => (redirectExpr_unbinds bound operand).bind fun _ hoperand => .pure hoperand
  | .binary _ left right _ => by
    refine (redirectExpr_unbinds bound left).bind fun left hleft => ?_
    refine (redirectExpr_unbinds bound right).bind fun right hright => .pure ?_
    exact Bool.or_eq_false_iff.mpr ⟨hleft, hright⟩
  | .unary op operand _ => by
    refine (redirectExpr_unbinds bound operand).bind fun operand hoperand => ?_
    cases op with
    | receive => exact .pure (hasBinding_receive hoperand)
    | _ => exact .pure hoperand
  | .selector base _ _ => (redirectExpr_unbinds bound base).bind fun _ hbase => .pure hbase
  | .index base index _ => by
    refine (redirectExpr_unbinds bound base).bind fun base hbase => ?_
    refine (redirectExpr_unbinds bound index).bind fun index hindex => .pure ?_
    exact Bool.or_eq_false_iff.mpr ⟨hbase, hindex⟩
  | .composite _ elements _ =>
    (redirectElements_unbinds bound elements).bind fun _ helements => .pure helements
  | .func params _ body _ =>
    (redirectBlock_unbinds (bound.hide (params.map (·.name))) body).bind
      fun _ hbody => .pure hbody

theorem redirectExprs_unbinds (bound : Bound) :
    ∀ es : List Expr, Unbinds (redirectExprs cx bound es) Expr.hasBindingList
  | [] => .pure rfl
  | e :: rest => by
    refine (redirectExpr_unbinds bound e).bind fun e he => ?_
    refine (redirectExprs_unbinds bound rest).bind fun rest hrest => .pure ?_
    exact Bool.or_eq_false_iff.mpr ⟨he, hrest⟩

theorem redirectExpr?_unbinds (bound : Bound) :
    ∀ e : Option Expr, Unbinds (redirectExpr? cx bound e) Expr.hasBindingOption
  | none => .pure rfl
  | some e => (redirectExpr_unbinds bound e).bind fun _ he => .pure he

theorem redirectSegments_unbinds (bound : Bound) :
    ∀ segments : List Segment, Unbinds (redirectSegments cx bound segments) Segment.hasBindingList
  | [] => .pure rfl
  | .text _ :: rest => (redirectSegments_unbinds bound rest).bind fun _ hrest => .pure hrest
  | .embed value _ _ :: rest => by
    refine (redirectExpr_unbinds bound value).bind fun value hvalue => ?_
    refine (redirectSegments_unbinds bound rest).bind fun rest hrest => .pure ?_
    exact Bool.or_eq_false_iff.mpr ⟨hvalue, hrest⟩

theorem redirectElements_unbinds (bound : Bound) :
    ∀ elements : List Element, Unbinds (redirectElements cx bound elements) Element.hasBindingList
  | [] => .pure rfl
  | ⟨key, value⟩ :: rest => by
    refine (redirectExpr?_unbinds bound key).bind fun key hkey => ?_
    refine (redirectExpr_unbinds bound value).bind fun value hvalue => ?_
    refine (redirectElements_unbinds bound rest).bind fun rest hrest => .pure ?_
    exact Bool.or_eq_false_iff.mpr ⟨Bool.or_eq_false_iff.mpr ⟨hkey, hvalue⟩, hrest⟩

theorem readExprs_unbinds (bound : Bound) :
    ∀ es : List Expr, Unbinds (readExprs cx bound es) Expr.hasBindingList
  | [] => .pure rfl
  | e :: rest => by
    refine (read_unbinds (redirectExpr_unbinds bound e)).bind fun e he => ?_
    refine (readExprs_unbinds bound rest).bind fun rest hrest => .pure ?_
    exact Bool.or_eq_false_iff.mpr ⟨he, hrest⟩

theorem readExpr?_unbinds (bound : Bound) :
    ∀ e : Option Expr, Unbinds (readExpr? cx bound e) Expr.hasBindingOption
  | none => .pure rfl
  | some e => (read_unbinds (redirectExpr_unbinds bound e)).bind fun _ he => .pure he

theorem redirectBlock_unbinds (bound : Bound) :
    ∀ block : Block, Unbinds (redirectBlock cx bound block) (Block.hasBindingIn false)
  | ⟨stmts, _⟩ => by
    refine (redirectStmts_emits bound stmts).collect.bind fun _ hx => .pure ?_
    exact Stmt.hasBindingInList_eq_false.mpr hx.2

theorem redirectStmts_emits (bound : Bound) :
    ∀ stmts : List Stmt, EmitsUnbound (redirectStmts cx bound stmts)
  | [] => .pure trivial
  | stmt :: rest =>
    (redirectStmt_emits bound stmt).bind fun bound _ => redirectStmts_emits bound rest

theorem redirectStmt_emits (bound : Bound) :
    ∀ stmt : Stmt, EmitsUnbound (redirectStmt cx bound stmt)
  | .bind names call span => by
    refine (read_unbinds (redirectExpr_unbinds bound call)).bind fun call hcall => ?_
    exact (dispatch_emits names span hcall).bind fun _ _ => .pure trivial
  | .assign targets op values _ => by
    refine (rejectCommaOk_emits _ _ _).bind fun _ _ => ?_
    refine (readExprs_unbinds bound values).bind fun values hvalues => ?_
    refine (readExprs_unbinds bound targets).bind fun targets htargets => ?_
    refine (emits_emit (unbound_singleton ?_)).bind fun _ _ => ?_
    · exact Bool.or_eq_false_iff.mpr ⟨htargets, hvalues⟩
    · exact .ite (fun _ => .pure trivial) fun _ => .pure trivial
  | .var _ _ values _ => by
    refine (rejectCommaOk_emits _ _ _).bind fun _ _ => ?_
    refine (readExprs_unbinds bound values).bind fun values hvalues => ?_
    refine emit_emits ?_ _
    exact hvalues
  | .expr value => by
    refine (read_unbinds (redirectExpr_unbinds bound value)).bind fun value hvalue => ?_
    refine emit_emits ?_ _
    exact hvalue
  | .ret values _ => by
    refine (readExprs_unbinds bound values).bind fun values hvalues => ?_
    refine emit_emits ?_ _
    exact hvalues
  | .throw value _ => by
    refine (read_unbinds (redirectExpr_unbinds bound value)).bind fun value hvalue => ?_
    refine emit_emits ?_ _
    exact hvalue
  | .go call _ => by
    refine (read_unbinds (redirectExpr_unbinds bound call)).bind fun call hcall => ?_
    refine emit_emits ?_ _
    exact hcall
  | .defer call _ => by
    refine (read_unbinds (redirectExpr_unbinds bound call)).bind fun call hcall => ?_
    refine emit_emits ?_ _
    exact hcall
  | .cond branch => by
    refine (redirectIf_unbinds bound branch).bind fun branch hbranch => ?_
    refine emit_emits ?_ _
    exact hbranch
  | .loop clause body _ => by
    refine (redirectClause_unbinds bound clause).bind fun ⟨clause, inner⟩ hclause => ?_
    refine (redirectBlock_unbinds inner body).bind fun body hbody => ?_
    refine emit_emits ?_ _
    exact Bool.or_eq_false_iff.mpr ⟨hclause, hbody⟩
  | .block body => by
    refine (redirectBlock_unbinds bound body).bind fun body hbody => ?_
    refine emit_emits ?_ _
    exact hbody
  | .breakLoop _ => emit_emits rfl _
  | .continueLoop _ => emit_emits rfl _

theorem redirectIf_unbinds (bound : Bound) :
    ∀ branch : If, Unbinds (redirectIf cx bound branch) (If.hasBindingIn false)
  | ⟨condition, thenBlock, otherwise, _⟩ => by
    refine (read_unbinds (redirectExpr_unbinds bound condition)).bind
      fun condition hcondition => ?_
    refine (redirectBlock_unbinds bound thenBlock).bind fun thenBlock hthen => ?_
    refine (redirectElse_unbinds bound otherwise).bind fun otherwise hotherwise => .pure ?_
    exact Bool.or_eq_false_iff.mpr ⟨Bool.or_eq_false_iff.mpr ⟨hcondition, hthen⟩, hotherwise⟩

theorem redirectElse_unbinds (bound : Bound) :
    ∀ otherwise : Else, Unbinds (redirectElse cx bound otherwise) (Else.hasBindingIn false)
  | .none => .pure rfl
  | .block body => (redirectBlock_unbinds bound body).bind fun _ hbody => .pure hbody
  | .elseIf branch => (redirectIf_unbinds bound branch).bind fun _ hbranch => .pure hbranch

theorem redirectClause_unbinds (bound : Bound) :
    ∀ clause : Clause, Unbinds (redirectClause cx bound clause) fun x => x.1.hasBinding
  | .infinite => .pure rfl
  | .condition test =>
    (read_unbinds (redirectExpr_unbinds bound test)).bind fun _ htest => .pure htest
  | .three first condition post => by
    refine (redirectHeader_unbinds bound first).bind fun ⟨first, bound⟩ hfirst => ?_
    refine (readExpr?_unbinds bound condition).bind fun condition hcondition => ?_
    refine (redirectHeader_unbinds bound post).bind fun ⟨post, bound⟩ hpost => .pure ?_
    exact Bool.or_eq_false_iff.mpr ⟨Bool.or_eq_false_iff.mpr ⟨hfirst, hcondition⟩, hpost⟩
  | .range key value define source => by
    -- Both ways to check the source end in the same step.
    have hfinish : Unbinds (read bound source (redirectExpr cx bound source) >>= fun source =>
        pure (Clause.range key value define source,
          if define then bound.hide ((key.toList ++ value.toList).map (·.name)) else bound))
        fun x => x.1.hasBinding :=
      (read_unbinds (redirectExpr_unbinds bound source)).bind fun _ hsource => .pure hsource
    unfold redirectClause
    cases source with
    | ident name span => exact Emits.ite (fun _ => emits_report_bind _ _) fun _ => hfinish
    | _ => exact hfinish

theorem redirectHeader_unbinds (bound : Bound) :
    ∀ stmt : Option Stmt, Unbinds (redirectHeader cx bound stmt)
      fun x => Stmt.hasBindingOption x.1
  | none => .pure rfl
  | some stmt => by
    have hstmt : EmitsUnbound (redirectStmt cx bound stmt) := redirectStmt_emits bound stmt
    cases stmt with
    | bind names call span => exact emits_report_bind _ _
    | _ => exact hstmt.collect.bind fun _ hx => .pure (hasBindingOption_getLast? hx.2)
end

/-! ### The pass over an item -/

/-- A function is left alone because it has no go-binding, or has none afterwards. -/
theorem lowerItem_unbinds (table : SignatureTable) (settings : Settings) (item : Item) :
    (lowerItem table settings item).Yields fun item' => item'.hasBinding = false := by
  cases item with
  | func f =>
    by_cases hbinding : f.body.hasBinding = true
    · simp only [lowerItem, hbinding, if_true]
      let cx : Context := { Scope.ofFunction table f with settings }
      have hbody : Unbinds (redirectBlock cx [] f.body) (Block.hasBindingIn false) :=
        redirectBlock_unbinds [] f.body
      have hfunction : (lowerFunction table settings f).Yields fun f' =>
          f'.body.hasBinding = false := by
        refine (hbody.runWith _).bind fun body hbody => ?_
        exact (Noted.yields_record _).bind fun _ _ => .pure hbody
      exact hfunction.bind fun f' hf' => .pure hf'
    · simp only [lowerItem, hbinding]
      exact .pure (Bool.eq_false_iff.mpr hbinding)
  | struct decl => exact .pure rfl
  | enum decl => exact .pure rfl
  | const decl => exact .pure rfl
  | support stem => exact .pure rfl

end Dispatch

end Desugar
