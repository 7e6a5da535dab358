import Desugar.Dispatch
import Desugar.Proofs.Pass.Settles
import Desugar.Proofs.Pass.Yields
import Desugar.Proofs.Signature

/-!
# Dispatching tasks keeps code lowered

The dispatch of a go-binding inserts states, captures and a task, whose only types are those of the
values of the call. Redirecting receives rebuilds the code around them as it is. So neither brings
back a construct that an earlier pass removed, nor does it break any other local property of nodes.

The same induction accounts for names. All that the pass does to its supply is to take names: for
captured operands, for results and for failures. In the code that takes the place of a go-binding,
the other names are those that it binds and what is needed to make a state and to recover. This
holds of rejected go-bindings as well.

- `Dispatch.insertedNames`: the names that are inserted as they are.
- `Dispatch.redirectExpr_settles` and the theorems beside it: one for each function of the pass.
- `dispatchTasks_keeps`: what the pass makes of a unit.
- `Dispatch.named_redirectBlock`: the names in the lowered body of a function.
-/

namespace Desugar

namespace Pass

variable {α β : Type} {p q : Pass α} {f : α → Pass β}

/-- The computation emits no code. -/
def EmitsNothing (p : Pass α) : Prop := ∀ supply, (p supply).code = []

/-- The computation emits a single statement, and this satisfies the condition. -/
def EmitsOne (p : Pass α) (P : Stmt → Prop) : Prop :=
  ∀ supply, ∃ stmt, (p supply).code = [stmt] ∧ P stmt

namespace EmitsNothing

theorem pure (a : α) : (Pure.pure a : Pass α).EmitsNothing := fun _ => rfl

theorem report (cause : Cause) (span : Span) : (Pass.report cause span).EmitsNothing :=
  fun _ => rfl

theorem collect : p.collect.EmitsNothing := fun _ => rfl

theorem bind (hp : p.EmitsNothing) (hf : ∀ a, (f a).EmitsNothing) : (p >>= f).EmitsNothing := by
  intro supply
  rw [code_bind, hp, hf]
  rfl

theorem ite {condition : Prop} [Decidable condition] (hp : p.EmitsNothing)
    (hq : q.EmitsNothing) : (if condition then p else q).EmitsNothing := by
  split
  · exact hp
  · exact hq

end EmitsNothing

namespace EmitsOne

variable {P : Stmt → Prop}

theorem after (hp : p.EmitsNothing) (hf : ∀ a, (f a).EmitsOne P) : (p >>= f).EmitsOne P := by
  intro supply
  obtain ⟨stmt, hstmt, h⟩ := hf (p supply).value (p supply).supply
  exact ⟨stmt, by rw [code_bind, hp, hstmt]; rfl, h⟩

theorem emit {f : Unit → Pass β} {stmt : Stmt} (h : P stmt) (hf : (f ()).EmitsNothing) :
    (Pass.emit [stmt] >>= f).EmitsOne P := by
  intro supply
  exact ⟨stmt, by rw [code_bind, hf]; rfl, h⟩

end EmitsOne

end Pass

namespace Dispatch

open Pass

variable {cx : Context}

/-! ### Code that is emitted

Expressions and blocks are redirected in place, so code is emitted only for statements, and for a
statement that is no go-binding it is a single one. -/

section Code

variable (bound : Bound)

theorem redirectBlock_emits (block : Block) : (redirectBlock cx bound block).EmitsNothing := by
  cases block
  exact .bind .collect fun _ => .pure _

mutual
theorem redirectExpr_emits : ∀ e : Expr, (redirectExpr cx bound e).EmitsNothing
  | .ident _ _ | .lit _ _ | .ofType _ _ => .pure _
  | .call callee args _ =>
    .bind (redirectExpr_emits callee) fun _ => .bind (redirectExprs_emits args) fun _ => .pure _
  | .template segments _ => .bind (redirectSegments_emits segments) fun _ => .pure _
  | .attempt operand _ => .bind (redirectExpr_emits operand) fun _ => .pure _
  | .binary _ left right _ =>
    .bind (redirectExpr_emits left) fun _ => .bind (redirectExpr_emits right) fun _ => .pure _
  | .unary op operand _ => .bind (redirectExpr_emits operand) fun _ => by cases op <;> exact .pure _
  | .selector base _ _ => .bind (redirectExpr_emits base) fun _ => .pure _
  | .index base index _ =>
    .bind (redirectExpr_emits base) fun _ => .bind (redirectExpr_emits index) fun _ => .pure _
  | .composite _ elements _ => .bind (redirectElements_emits elements) fun _ => .pure _
  | .func _ _ body _ => .bind (redirectBlock_emits _ body) fun _ => .pure _

theorem redirectExprs_emits : ∀ es : List Expr, (redirectExprs cx bound es).EmitsNothing
  | [] => .pure _
  | e :: rest =>
    .bind (redirectExpr_emits e) fun _ => .bind (redirectExprs_emits rest) fun _ => .pure _

theorem redirectExpr?_emits : ∀ e : Option Expr, (redirectExpr? cx bound e).EmitsNothing
  | none => .pure _
  | some e => .bind (redirectExpr_emits e) fun _ => .pure _

theorem redirectSegments_emits : ∀ segments : List Segment,
    (redirectSegments cx bound segments).EmitsNothing
  | [] => .pure _
  | .text _ :: rest => .bind (redirectSegments_emits rest) fun _ => .pure _
  | .embed value _ _ :: rest =>
    .bind (redirectExpr_emits value) fun _ => .bind (redirectSegments_emits rest) fun _ => .pure _

theorem redirectElements_emits : ∀ elements : List Element,
    (redirectElements cx bound elements).EmitsNothing
  | [] => .pure _
  | ⟨key, value⟩ :: rest =>
    .bind (redirectExpr?_emits key) fun _ => .bind (redirectExpr_emits value) fun _ =>
      .bind (redirectElements_emits rest) fun _ => .pure _
end

theorem read_emits (e : Expr) : (read bound e (redirectExpr cx bound e)).EmitsNothing :=
  .ite (.pure e) (redirectExpr_emits bound e)

theorem readExprs_emits (es : List Expr) : (readExprs cx bound es).EmitsNothing := by
  induction es with
  | nil => exact .pure _
  | cons e rest ih => exact .bind (read_emits bound e) fun _ => .bind ih fun _ => .pure _

theorem rejectCommaOk_emitsNothing (targets : Nat) (values : List Expr) :
    (rejectCommaOk bound targets values).EmitsNothing := by
  unfold rejectCommaOk
  split
  · split
    · exact .report _ _
    · exact .pure _
  · exact .pure _

mutual
theorem redirectIf_emits : ∀ branch : If, (redirectIf cx bound branch).EmitsNothing
  | ⟨condition, thenBlock, otherwise, _⟩ =>
    .bind (read_emits bound condition) fun _ => .bind (redirectBlock_emits bound thenBlock) fun _ =>
      .bind (redirectElse_emits otherwise) fun _ => .pure _

theorem redirectElse_emits : ∀ otherwise : Else, (redirectElse cx bound otherwise).EmitsNothing
  | .none => .pure _
  | .block body => .bind (redirectBlock_emits bound body) fun _ => .pure _
  | .elseIf branch => .bind (redirectIf_emits branch) fun _ => .pure _
end

theorem redirectHeader_emits (stmt : Option Stmt) :
    (redirectHeader cx bound stmt).EmitsNothing := by
  cases stmt with
  | none => exact .pure _
  | some stmt =>
    cases stmt with
    | bind names call span => exact .bind (.report _ _) fun _ => .pure _
    | _ => exact .bind .collect fun _ => .pure _

theorem redirectClause_emits (clause : Clause) :
    (redirectClause cx bound clause).EmitsNothing := by
  cases clause with
  | infinite => exact .pure _
  | condition test => exact .bind (read_emits bound test) fun _ => .pure _
  | three first condition post =>
    refine .bind (redirectHeader_emits bound first) fun ⟨first', bound⟩ => ?_
    have hcondition : (readExpr? cx bound condition).EmitsNothing := by
      cases condition with
      | none => exact .pure _
      | some test => exact .bind (read_emits bound test) fun _ => .pure _
    exact .bind hcondition fun _ => .bind (redirectHeader_emits bound post) fun _ => .pure _
  | range key value define source =>
    have hfinish : (read bound source (redirectExpr cx bound source) >>= fun source =>
        pure (Clause.range key value define source,
          if define then bound.hide ((key.toList ++ value.toList).map (·.name))
          else bound)).EmitsNothing :=
      .bind (read_emits bound source) fun _ => .pure _
    unfold redirectClause
    cases source with
    | ident name span => exact .ite (.bind (.report _ _) fun _ => hfinish) hfinish
    | _ => exact hfinish

/-- A statement other than a go-binding is replaced by a single one of the same kind. -/
theorem redirectStmt_emitsOne {stmt : Stmt} (h : ∀ names call span, stmt ≠ .bind names call span) :
    (redirectStmt cx bound stmt).EmitsOne fun last => last.form = stmt.form := by
  cases stmt with
  | bind names call span => exact absurd rfl (h names call span)
  | assign targets op values span =>
    refine .after (rejectCommaOk_emitsNothing bound _ _) fun _ => ?_
    refine .after (readExprs_emits bound values) fun values' => ?_
    refine .after (readExprs_emits bound targets) fun targets' => ?_
    exact .emit rfl (.ite (.pure _) (.pure _))
  | var names ty values span =>
    refine .after (rejectCommaOk_emitsNothing bound _ _) fun _ => ?_
    exact .after (readExprs_emits bound values) fun _ => .emit rfl (.pure _)
  | ret values span => exact .after (readExprs_emits bound values) fun _ => .emit rfl (.pure _)
  | cond branch => exact .after (redirectIf_emits bound branch) fun _ => .emit rfl (.pure _)
  | loop clause body span =>
    refine .after (redirectClause_emits bound clause) fun x => ?_
    exact .after (redirectBlock_emits x.2 body) fun _ => .emit rfl (.pure _)
  | block body => exact .after (redirectBlock_emits bound body) fun _ => .emit rfl (.pure _)
  | breakLoop span => exact .emit rfl (.pure _)
  | continueLoop span => exact .emit rfl (.pure _)
  | _ => exact .after (read_emits bound _) fun _ => .emit rfl (.pure _)

/-- A statement in a header keeps its kind, also one that is rejected. -/
theorem form_redirectHeader (stmt : Option Stmt) (supply : NameSupply) :
    (redirectHeader cx bound stmt supply).value.1.map Stmt.form = stmt.map Stmt.form := by
  cases stmt with
  | none => rfl
  | some stmt =>
    have hlast (h : ∀ names call span, stmt ≠ .bind names call span) :
        ((redirectStmt cx bound stmt supply).code.getLast?).map Stmt.form = some stmt.form := by
      obtain ⟨last, hcode, hform⟩ := redirectStmt_emitsOne bound h supply
      rw [hcode, List.getLast?_singleton, Option.map_some, hform]
    cases stmt with
    | bind names call span => rfl
    | _ => exact hlast nofun

/-- The header of a loop keeps the kinds of its statements and the variables that it declares. -/
theorem form_redirectClause (clause : Clause) (supply : NameSupply) :
    (redirectClause cx bound clause supply).value.1.form = clause.form ∧
      (redirectClause cx bound clause supply).value.1.bound = clause.bound := by
  cases clause with
  | infinite => exact ⟨rfl, rfl⟩
  | condition test => exact ⟨rfl, rfl⟩
  | three first condition post =>
    refine ⟨?_, rfl⟩
    exact congrArg₂ (Clause.three · none ·) (form_redirectHeader bound first _)
      (form_redirectHeader _ post _)
  | range key value define source =>
    unfold redirectClause
    cases source with
    | ident name span =>
      by_cases hbound : bound.contains name = true
      · simp only [hbound, if_true]
        exact ⟨rfl, rfl⟩
      · simp only [hbound]
        exact ⟨rfl, rfl⟩
    | _ => exact ⟨rfl, rfl⟩

end Code

/-! ### Inserted code -/

/-- The names that the lowering of go-bindings inserts as they are. The blank declares nothing. -/
def insertedNames (settings : Settings) : List String :=
  ["_", "recover", settings.hidden "NewSync"]

section Inserted

variable {fixed known : List String} {T : Node.Trait fixed}

/-- A call is good if its callee and its arguments are. -/
theorem within_apply {callee : Expr} {args : List Expr}
    (hcallee : Within (T.good known) callee.nodes)
    (hargs : Within (T.good known) (Expr.nodesList args)) :
    Within (T.good known) (callee.apply args).nodes :=
  T.pair rfl rfl hcallee hargs

/-- A method call is good if its receiver and its arguments are. -/
theorem within_method {receiver field : String} {args : List Expr}
    (hreceiver : Within (T.good known) (Expr.name receiver).nodes)
    (hargs : Within (T.good known) (Expr.nodesList args)) :
    Within (T.good known) (Expr.method receiver field args).nodes :=
  within_apply (T.cons rfl rfl hreceiver) hargs

/-- The call of an inserted function literal, which has no parameter and no return clause. -/
theorem within_task {body : List Stmt} (span : Span)
    (h : Within (T.good known) (Stmt.nodesList body)) :
    Within (T.good known) (Expr.apply (.func [] none (.inserted body) span) []).nodes :=
  within_apply (T.cons rfl rfl h) within_nil

/-- The statement that makes a state is good if its name is and the type of the slot is plain. -/
theorem within_stateOf {settings : Settings} {T : Node.Trait (insertedNames settings)}
    {name : String} {ty : Ty} (hname : Within (T.good known) (Expr.name name).nodes)
    (hty : ty.isPlain = true) : Within (T.good known) (stateOf settings name ty).nodes := by
  refine T.defineOne hname (within_apply (T.pair rfl rfl (T.name (.inr ?_)) ?_) within_nil)
  · simp [insertedNames]
  · exact T.leaf hty rfl

/-- The deferred recovery is good if the names of the states and of the failure are. -/
theorem within_recovery {settings : Settings} {T : Node.Trait (insertedNames settings)}
    {states : List String} {failure : String} (span : Span)
    (hstates : Within (T.good known) (Expr.nodesList (states.map Expr.name)))
    (hfailure : Within (T.good known) (Expr.name failure).nodes) :
    Within (T.good known) (recovery states failure span).nodes := by
  have hrecover : Within (T.good known) (Expr.name "recover").nodes :=
    T.name (.inr (by simp [insertedNames]))
  have hfailures : Within (T.good known) (Stmt.nodesList
      (states.map fun state => .expr (Expr.method state "fail" [Expr.name failure]))) := by
    rw [within_nodesList]
    intro stmt hstmt
    obtain ⟨state, hstate, rfl⟩ := List.mem_map.mp hstmt
    have hreceiver := within_exprs.mp hstates _ (List.mem_map_of_mem hstate)
    exact T.cons rfl rfl (within_method hreceiver (within_expr.mpr hfailure))
  refine T.cons rfl rfl (within_task span (within_append.mpr ⟨?_, within_stmt.mpr ?_⟩))
  · exact T.defineOne hfailure (within_apply hrecover within_nil)
  · exact T.onlyIf (T.isNotNil hfailure) hfailures

/-- The statements that deliver the results are good if the names in them are. -/
theorem within_deliveries {names : List Ident} {results : List String}
    (hnames : Within (T.good known) (Expr.nodesList ((names.map (·.name)).map Expr.name)))
    (hresults : Within (T.good known) (Expr.nodesList (results.map Expr.name))) :
    Within (T.good known) (Stmt.nodesList (deliveries names results)) := by
  rw [within_nodesList]
  intro stmt hstmt
  obtain ⟨⟨name, result⟩, hmem, h⟩ := List.mem_filterMap.mp hstmt
  obtain ⟨hname, hresult⟩ := List.of_mem_zip hmem
  by_cases hblank : name.isBlank = true
  · simp [hblank] at h
  · obtain rfl : _ = stmt := by simpa [hblank] using h
    have hreceiver := within_exprs.mp hnames _ (List.mem_map_of_mem (List.mem_map_of_mem hname))
    have hvalue := within_exprs.mp hresults _ (List.mem_map_of_mem hresult)
    exact T.cons rfl rfl (within_method hreceiver (within_expr.mpr hvalue))

/-- States have the names that are bound. -/
theorem within_stateNames {names : List Ident}
    (h : Within (T.good known) (Expr.nodesList ((names.map (·.name)).map Expr.name))) :
    Within (T.good known) (Expr.nodesList ((stateNames names).map Expr.name)) := by
  rw [within_exprs] at h ⊢
  intro e he
  obtain ⟨x, hx, rfl⟩ := List.mem_map.mp he
  obtain ⟨name, hname, rfl⟩ := List.mem_map.mp hx
  exact h _ (List.mem_map_of_mem (List.mem_map_of_mem (List.mem_of_mem_filter hname)))

/-- A receive from a state or from a channel is good if its operand is. -/
theorem within_receive {bound : Bound} {operand : Expr} {span : Span}
    (h : Within (T.good known) operand.nodes) :
    Within (T.good known) (receive bound operand span).nodes := by
  unfold receive
  split
  · exact T.pair rfl rfl (T.cons rfl rfl h) within_nil
  · exact T.cons rfl rfl h

/-! ### Captured operands -/

/-- A captured operand is good, both where it is held and where it is used. -/
theorem capture_settles {e : Expr} (h : Within (T.good known) e.nodes) :
    (capture e).Settles false T known Expr.nodes := by
  refine (Settles.fresh "Arg").bind fun name later hlater hname => ?_
  exact .emit_bind (within_stmt.mpr (T.defineOne hname (h.grow hlater))) (.pure hname)

/-- A captured callee is good. -/
theorem captureCallee_settles {callee : Expr} (h : Within (T.good known) callee.nodes) :
    (captureCallee callee).Settles false T known Expr.nodes := by
  unfold captureCallee
  split
  · exact capture_settles h
  · exact .pure h

/-- Captured arguments are good. -/
theorem captureArgs_settles {args : List Expr} (h : Within (T.good known) (Expr.nodesList args)) :
    (captureArgs args).Settles false T known Expr.nodesList := by
  induction args with
  | nil => exact .pure within_nil
  | cons arg rest ih =>
    obtain ⟨harg, hrest⟩ := within_append.mp h
    have hfinish (arg : Expr) (later : List String) (hlater : known ⊆ later)
        (harg : Within (T.good later) arg.nodes) :
        (captureArgs rest >>= fun rest => pure (arg :: rest)).Settles false T later
          Expr.nodesList :=
      ((ih hrest).mono hlater).bind fun rest later₂ h₂ hrest =>
        .pure (within_append.mpr ⟨harg.grow h₂, hrest⟩)
    exact Settles.ite (fun _ => hfinish arg known (List.Subset.refl known) harg)
      fun _ => (capture_settles harg).bind hfinish

/-! ### Redirected receives -/

/-- An expression of a statement is good, whether it is redirected or left as it is. -/
theorem read_settles {bound : Bound} {e : Expr} {redirected : Pass Expr}
    (he : Within (T.good known) e.nodes) (h : redirected.Settles false T known Expr.nodes) :
    (read bound e redirected).Settles false T known Expr.nodes :=
  .ite (fun _ => .pure he) fun _ => h

theorem rejectCommaOk_settles (bound : Bound) (targets : Nat) (values : List Expr) :
    (rejectCommaOk bound targets values).Settles false T known fun _ => [] := by
  unfold rejectCommaOk
  split
  · split
    · exact .note _
    · exact .pure within_nil
  · exact .pure within_nil

end Inserted

/-! ### One go-binding -/

section Binding

variable {known : List String} {settings : Settings} {T : Node.Trait (insertedNames settings)}
  {names : List Ident}

theorem resultNames_settles : ∀ names : List Ident,
    (resultNames names).Settles false T known
      fun results => Expr.nodesList (results.map Expr.name)
  | [] => .pure within_nil
  | name :: rest => by
    have hblank : Within (T.good known) (Expr.name "_").nodes :=
      T.name (.inr (by simp [insertedNames]))
    have hfinish (result : String) (later : List String) (hlater : known ⊆ later)
        (hresult : Within (T.good later) (Expr.name result).nodes) :
        (resultNames rest >>= fun rest => pure (result :: rest)).Settles false T later
          fun results => Expr.nodesList (results.map Expr.name) :=
      ((resultNames_settles rest).mono hlater).bind fun rest later₂ h₂ hrest =>
        .pure (within_append.mpr ⟨hresult.grow h₂, hrest⟩)
    exact Settles.ite (fun _ => hfinish "_" known (List.Subset.refl known) hblank)
      fun _ => (Settles.fresh "Val").bind hfinish

/-- The body of a task is good if the call in it and the bound names are. -/
theorem taskBody_settles {call : Expr} (span : Span)
    (hnames : Within (T.good known) (Expr.nodesList ((names.map (·.name)).map Expr.name)))
    (hcall : Within (T.good known) call.nodes) :
    (taskBody names (stateNames names) call span).Settles false T known Stmt.nodesList := by
  refine .ite (fun _ => .pure (within_stmt.mpr (T.cons rfl rfl hcall))) fun _ => ?_
  refine (Settles.fresh "Fail").bind fun failure later₁ h₁ hfailure => ?_
  refine (resultNames_settles names).bind fun results later₂ h₂ hresults => .pure ?_
  have hnames := (hnames.grow h₁).grow h₂
  have hcall := within_expr.mpr ((hcall.grow h₁).grow h₂)
  refine within_append.mpr
    ⟨within_recovery span (within_stateNames hnames) (hfailure.grow h₂), ?_⟩
  exact within_append.mpr ⟨T.define hresults hcall, within_deliveries hnames hresults⟩

variable {T : Node.Trait (insertedNames cx.settings)}
  (hnames : Within (T.good known) (Expr.nodesList ((names.map (·.name)).map Expr.name)))

include hnames

theorem dispatchCall_settles {sig : Signature} {callee : Expr} {args : List Expr}
    (callSpan span : Span) (hsig : ∀ t ∈ sig.slots, t.isPlain = true)
    (hcallee : Within (T.good known) callee.nodes)
    (hargs : Within (T.good known) (Expr.nodesList args)) :
    (dispatchCall cx names sig callee args callSpan span).Settles false T known
      fun _ => [] := by
  refine .emit_bind ?_ ?_
  · rw [within_nodesList]
    intro stmt hstmt
    obtain ⟨⟨name, ty⟩, hmem, h⟩ := List.mem_filterMap.mp hstmt
    obtain ⟨hname, hty⟩ := List.of_mem_zip hmem
    by_cases hblank : name.isBlank = true
    · simp [hblank] at h
    · obtain rfl : _ = stmt := by simpa [hblank] using h
      have hname := within_exprs.mp hnames _ (List.mem_map_of_mem (List.mem_map_of_mem hname))
      -- The type of a state is that of a value of the call.
      exact within_stateOf hname (hsig ty hty)
  · refine (captureCallee_settles hcallee).bind fun callee later₁ h₁ hcallee => ?_
    refine (captureArgs_settles (hargs.grow h₁)).bind fun args later₂ h₂ hargs => ?_
    have hcall : Within (T.good later₂) (Expr.call callee args callSpan).nodes :=
      T.pair rfl rfl (hcallee.grow h₂) hargs
    refine (taskBody_settles span ((hnames.grow h₁).grow h₂) hcall).bind fun body _ _ hbody => ?_
    exact .emit_bind (within_stmt.mpr (T.cons rfl rfl (within_task span hbody))) (.note _)

/-- What takes the place of a go-binding is good. If it is rejected, that is nothing. -/
theorem dispatch_settles (htable : cx.table.IsPlain) {call : Expr} (span : Span)
    (hcall : Within (T.good known) call.nodes) :
    (dispatch cx names call span).Settles false T known fun _ => [] := by
  unfold dispatch
  split
  · obtain ⟨-, hcallee, hargs⟩ := within_pair.mp hcall
    split
    · rename_i hsig
      refine .ite (fun _ => .note _) fun _ => .ite (fun _ => .note _) fun _ => ?_
      exact dispatchCall_settles hnames _ span (htable.all_isPlain_slots hsig) hcallee hargs
    · exact .note _
  · exact .note _

end Binding

/-! ### The pass over a body

The induction is on the code. What is redirected later knows the names that were taken before. -/

section Body

-- In a mutual induction the linter does not see a hypothesis that is used in another theorem.
set_option linter.unusedSectionVars false

variable {known : List String} {T : Node.Trait (insertedNames cx.settings)}
  (htable : cx.table.IsPlain)

include htable

mutual
theorem redirectExpr_settles (bound : Bound) :
    ∀ e : Expr, Within (T.good known) e.nodes →
      (redirectExpr cx bound e).Settles false T known Expr.nodes
  | .ident _ _, h => .pure h
  | .lit _ _, h => .pure h
  | .ofType _ _, h => .pure h
  | .call callee args _, h => by
    obtain ⟨-, hcallee, hargs⟩ := within_pair.mp h
    have hredirected := redirectExprs_settles bound args hargs
    refine (redirectExpr_settles bound callee hcallee).bind fun callee later₁ h₁ hcallee => ?_
    refine (hredirected.mono h₁).bind fun args later₂ h₂ hargs => ?_
    exact .pure (T.pair rfl rfl (hcallee.grow h₂) hargs)
  | .template segments _, h => by
    obtain ⟨hnode, hsegments⟩ := within_cons.mp h
    exact (redirectSegments_settles bound segments hsegments).bind fun _ _ hlater hsegments =>
      .pure (within_cons.mpr ⟨T.kept hnode rfl rfl hlater, hsegments⟩)
  | .attempt operand _, h => by
    obtain ⟨hnode, hoperand⟩ := within_cons.mp h
    exact (redirectExpr_settles bound operand hoperand).bind fun _ _ hlater hoperand =>
      .pure (within_cons.mpr ⟨T.kept hnode rfl rfl hlater, hoperand⟩)
  | .binary _ left right _, h => by
    obtain ⟨-, hleft, hright⟩ := within_pair.mp h
    have hredirected := redirectExpr_settles bound right hright
    refine (redirectExpr_settles bound left hleft).bind fun left later₁ h₁ hleft => ?_
    refine (hredirected.mono h₁).bind fun right later₂ h₂ hright => ?_
    exact .pure (T.pair rfl rfl (hleft.grow h₂) hright)
  | .unary op operand span, h => by
    obtain ⟨-, hoperand⟩ := within_cons.mp h
    refine (redirectExpr_settles bound operand hoperand).bind fun operand _ _ hoperand => ?_
    cases op with
    | receive => exact .pure (within_receive hoperand)
    | _ => exact .pure (T.cons rfl rfl hoperand)
  | .selector base _ _, h =>
    (redirectExpr_settles bound base (within_cons.mp h).2).bind
      fun _ _ _ hbase => .pure (T.cons rfl rfl hbase)
  | .index base index _, h => by
    obtain ⟨-, hbase, hindex⟩ := within_pair.mp h
    have hredirected := redirectExpr_settles bound index hindex
    refine (redirectExpr_settles bound base hbase).bind fun base later₁ h₁ hbase => ?_
    refine (hredirected.mono h₁).bind fun index later₂ h₂ hindex => ?_
    exact .pure (T.pair rfl rfl (hbase.grow h₂) hindex)
  | .composite _ elements _, h => by
    obtain ⟨hnode, helements⟩ := within_cons.mp h
    exact (redirectElements_settles bound elements helements).bind fun _ _ hlater helements =>
      .pure (within_cons.mpr ⟨T.kept hnode rfl rfl hlater, helements⟩)
  | .func _ _ body _, h => by
    obtain ⟨hnode, hbody⟩ := within_cons.mp h
    exact (redirectBlock_settles _ body hbody).bind fun _ _ hlater hbody =>
      .pure (within_cons.mpr ⟨T.kept hnode rfl rfl hlater, hbody⟩)

theorem redirectExprs_settles (bound : Bound) :
    ∀ es : List Expr, Within (T.good known) (Expr.nodesList es) →
      (redirectExprs cx bound es).Settles false T known Expr.nodesList
  | [], _ => .pure within_nil
  | e :: rest, h => by
    obtain ⟨he, hrest⟩ := within_append.mp h
    have hredirected := redirectExprs_settles bound rest hrest
    refine (redirectExpr_settles bound e he).bind fun e later₁ h₁ he => ?_
    refine (hredirected.mono h₁).bind fun rest later₂ h₂ hrest => ?_
    exact .pure (within_append.mpr ⟨he.grow h₂, hrest⟩)

theorem redirectExpr?_settles (bound : Bound) :
    ∀ e : Option Expr, Within (T.good known) (Expr.nodesOption e) →
      (redirectExpr? cx bound e).Settles false T known Expr.nodesOption
  | none, _ => .pure within_nil
  | some e, h => (redirectExpr_settles bound e h).bind fun _ _ _ he => .pure he

theorem redirectSegments_settles (bound : Bound) :
    ∀ segments : List Segment, Within (T.good known) (Segment.nodesList segments) →
      (redirectSegments cx bound segments).Settles false T known Segment.nodesList
  | [], _ => .pure within_nil
  | .text _ :: rest, h =>
    (redirectSegments_settles bound rest h).bind fun _ _ _ hrest => .pure hrest
  | .embed value _ _ :: rest, h => by
    obtain ⟨hvalue, hrest⟩ := within_append.mp h
    have hredirected := redirectSegments_settles bound rest hrest
    refine (redirectExpr_settles bound value hvalue).bind fun value later₁ h₁ hvalue => ?_
    refine (hredirected.mono h₁).bind fun rest later₂ h₂ hrest => ?_
    exact .pure (within_append.mpr ⟨hvalue.grow h₂, hrest⟩)

theorem redirectElements_settles (bound : Bound) :
    ∀ elements : List Element, Within (T.good known) (Element.nodesList elements) →
      (redirectElements cx bound elements).Settles false T known Element.nodesList
  | [], _ => .pure within_nil
  | ⟨key, value⟩ :: rest, h => by
    obtain ⟨h, hrest⟩ := within_append.mp h
    obtain ⟨hkey, hvalue⟩ := within_append.mp h
    have hredirectedValue := redirectExpr_settles bound value hvalue
    have hredirected := redirectElements_settles bound rest hrest
    refine (redirectExpr?_settles bound key hkey).bind fun key later₁ h₁ hkey => ?_
    refine (hredirectedValue.mono h₁).bind fun value later₂ h₂ hvalue => ?_
    refine ((hredirected.mono h₁).mono h₂).bind fun rest later₃ h₃ hrest => ?_
    have hkeyed := within_append.mpr ⟨hkey.grow h₂, hvalue⟩
    exact .pure (within_append.mpr ⟨hkeyed.grow h₃, hrest⟩)

theorem readExprs_settles (bound : Bound) :
    ∀ es : List Expr, Within (T.good known) (Expr.nodesList es) →
      (readExprs cx bound es).Settles false T known Expr.nodesList
  | [], _ => .pure within_nil
  | e :: rest, h => by
    obtain ⟨he, hrest⟩ := within_append.mp h
    have hread := readExprs_settles bound rest hrest
    refine (read_settles he (redirectExpr_settles bound e he)).bind fun e later₁ h₁ he => ?_
    refine (hread.mono h₁).bind fun rest later₂ h₂ hrest => ?_
    exact .pure (within_append.mpr ⟨he.grow h₂, hrest⟩)

theorem readExpr?_settles (bound : Bound) :
    ∀ e : Option Expr, Within (T.good known) (Expr.nodesOption e) →
      (readExpr? cx bound e).Settles false T known Expr.nodesOption
  | none, _ => .pure within_nil
  | some e, h =>
    (read_settles h (redirectExpr_settles bound e h)).bind fun _ _ _ he => .pure he

theorem redirectBlock_settles (bound : Bound) :
    ∀ block : Block, Within (T.good known) block.nodes →
      (redirectBlock cx bound block).Settles false T known Block.nodes
  | ⟨stmts, _⟩, h => (redirectStmts_settles bound stmts h).collect.bind fun _ _ _ hx => .pure hx

theorem redirectStmts_settles (bound : Bound) :
    ∀ stmts : List Stmt, Within (T.good known) (Stmt.nodesList stmts) →
      (redirectStmts cx bound stmts).Settles false T known fun _ => []
  | [], _ => .pure within_nil
  | stmt :: rest, h => by
    obtain ⟨hstmt, hrest⟩ := within_append.mp h
    refine (redirectStmt_settles bound stmt hstmt).bind fun inner _ hlater _ => ?_
    exact (redirectStmts_settles inner rest hrest).mono hlater

theorem redirectStmt_settles (bound : Bound) :
    ∀ stmt : Stmt, Within (T.good known) stmt.nodes →
      (redirectStmt cx bound stmt).Settles false T known fun _ => []
  | .bind names call span, h => by
    obtain ⟨hnode, hcall⟩ := within_cons.mp h
    -- The names that are bound become those of the states.
    have hnames : Within (T.good known) (Expr.nodesList ((names.map (·.name)).map Expr.name)) := by
      rw [within_exprs]
      intro e he
      obtain ⟨x, hx, rfl⟩ := List.mem_map.mp he
      exact within_leaf.mpr (T.reused hnode hx)
    refine (read_settles hcall (redirectExpr_settles bound call hcall)).bind
      fun call later₁ h₁ hcall => ?_
    exact (dispatch_settles (hnames.grow h₁) htable span hcall).bind
      fun _ _ _ _ => .pure within_nil
  | .assign targets op values span, h => by
    obtain ⟨-, htargets, hvalues⟩ := within_pair.mp h
    have hreadValues := readExprs_settles bound values hvalues
    have hreadTargets := readExprs_settles bound targets htargets
    refine (rejectCommaOk_settles bound _ _).bind fun _ later₁ h₁ _ => ?_
    refine (hreadValues.mono h₁).bind fun values later₂ h₂ hvalues => ?_
    refine ((hreadTargets.mono h₁).mono h₂).bind fun targets later₃ h₃ htargets => ?_
    refine .emit_bind (within_stmt.mpr (T.pair rfl rfl htargets (hvalues.grow h₃))) ?_
    exact .ite (fun _ => .pure within_nil) fun _ => .pure within_nil
  | .var names ty values span, h => by
    obtain ⟨hnode, hvalues⟩ := within_cons.mp h
    have hread := readExprs_settles bound values hvalues
    refine (rejectCommaOk_settles bound _ _).bind fun _ later₁ h₁ _ => ?_
    refine (hread.mono h₁).bind fun values later₂ h₂ hvalues => ?_
    have hvar : T.good later₂ (.stmt (.var names ty values span)) = true :=
      T.grow h₂ (T.kept hnode rfl rfl h₁)
    exact .emit_bind (within_stmt.mpr (within_cons.mpr ⟨hvar, hvalues⟩)) (.pure within_nil)
  | .expr value, h => by
    obtain ⟨-, hvalue⟩ := within_cons.mp h
    refine (read_settles hvalue (redirectExpr_settles bound value hvalue)).bind
      fun value _ _ hvalue => ?_
    exact .emit_bind (within_stmt.mpr (T.cons rfl rfl hvalue)) (.pure within_nil)
  | .ret values span, h => by
    refine (readExprs_settles bound values (within_cons.mp h).2).bind fun values _ _ hvalues => ?_
    exact .emit_bind (within_stmt.mpr (T.cons rfl rfl hvalues)) (.pure within_nil)
  | .throw value span, h => by
    obtain ⟨hnode, hvalue⟩ := within_cons.mp h
    refine (read_settles hvalue (redirectExpr_settles bound value hvalue)).bind
      fun value _ hlater hvalue => ?_
    have hthrow : T.good _ (.stmt (.throw value span)) = true :=
      T.kept hnode rfl rfl hlater
    exact .emit_bind (within_stmt.mpr (within_cons.mpr ⟨hthrow, hvalue⟩)) (.pure within_nil)
  | .go call span, h => by
    obtain ⟨-, hcall⟩ := within_cons.mp h
    refine (read_settles hcall (redirectExpr_settles bound call hcall)).bind
      fun call _ _ hcall => ?_
    exact .emit_bind (within_stmt.mpr (T.cons rfl rfl hcall)) (.pure within_nil)
  | .defer call span, h => by
    obtain ⟨-, hcall⟩ := within_cons.mp h
    refine (read_settles hcall (redirectExpr_settles bound call hcall)).bind
      fun call _ _ hcall => ?_
    exact .emit_bind (within_stmt.mpr (T.cons rfl rfl hcall)) (.pure within_nil)
  | .cond branch, h => by
    refine (redirectIf_settles bound branch (within_cons.mp h).2).bind fun branch _ _ hbranch => ?_
    exact .emit_bind (within_stmt.mpr (T.cons rfl rfl hbranch)) (.pure within_nil)
  | .loop clause body span, h => by
    obtain ⟨hnode, hclause, hbody⟩ := within_pair.mp h
    refine (redirectClause_settles bound clause hclause).bind_and
      (R := fun x => x.1.form = clause.form ∧ x.1.bound = clause.bound)
      (fun supply _ => form_redirectClause bound clause supply)
      fun ⟨lowered, inner⟩ later₁ h₁ hclause ⟨hform, hbound⟩ => ?_
    have hredirected := redirectBlock_settles inner body hbody
    refine (hredirected.mono h₁).bind fun body later₂ h₂ hbody => ?_
    have hloop : T.good known (.stmt (.loop lowered body span)) = true := by
      refine T.shell hnode ?_ ?_
      · rw [Node.shell, Node.shell, Stmt.shell, Stmt.shell, hform]
      · rw [Node.names_loop, Node.names_loop, hbound]
    have hnodes : Within (T.good later₂) (Stmt.loop lowered body span).nodes :=
      within_pair.mpr ⟨T.grow h₂ (T.grow h₁ hloop), hclause.grow h₂, hbody⟩
    exact .emit_bind (within_stmt.mpr hnodes) (.pure within_nil)
  | .block body, h => by
    refine (redirectBlock_settles bound body (within_cons.mp h).2).bind fun body _ _ hbody => ?_
    exact .emit_bind (within_stmt.mpr (T.cons rfl rfl hbody)) (.pure within_nil)
  | .breakLoop _, h => .emit_bind (within_stmt.mpr h) (.pure within_nil)
  | .continueLoop _, h => .emit_bind (within_stmt.mpr h) (.pure within_nil)

theorem redirectIf_settles (bound : Bound) :
    ∀ branch : If, Within (T.good known) branch.nodes →
      (redirectIf cx bound branch).Settles false T known If.nodes
  | ⟨condition, thenBlock, otherwise, _⟩, h => by
    obtain ⟨h, hotherwise⟩ := within_append.mp h
    obtain ⟨hcondition, hthen⟩ := within_append.mp h
    have hredirectedThen := redirectBlock_settles bound thenBlock hthen
    have hredirectedElse := redirectElse_settles bound otherwise hotherwise
    refine (read_settles hcondition (redirectExpr_settles bound condition hcondition)).bind
      fun condition later₁ h₁ hcondition => ?_
    refine (hredirectedThen.mono h₁).bind fun thenBlock later₂ h₂ hthen => ?_
    refine ((hredirectedElse.mono h₁).mono h₂).bind fun otherwise later₃ h₃ hotherwise => ?_
    have htested := within_append.mpr ⟨hcondition.grow h₂, hthen⟩
    exact .pure (within_append.mpr ⟨htested.grow h₃, hotherwise⟩)

theorem redirectElse_settles (bound : Bound) :
    ∀ otherwise : Else, Within (T.good known) otherwise.nodes →
      (redirectElse cx bound otherwise).Settles false T known Else.nodes
  | .none, _ => .pure within_nil
  | .block body, h => (redirectBlock_settles bound body h).bind fun _ _ _ hbody => .pure hbody
  | .elseIf branch, h =>
    (redirectIf_settles bound branch h).bind fun _ _ _ hbranch => .pure hbranch

theorem redirectClause_settles (bound : Bound) :
    ∀ clause : Clause, Within (T.good known) clause.nodes →
      (redirectClause cx bound clause).Settles false T known fun x => x.1.nodes
  | .infinite, _ => .pure within_nil
  | .condition test, h =>
    (read_settles h (redirectExpr_settles bound test h)).bind fun _ _ _ htest => .pure htest
  | .three first condition post, h => by
    obtain ⟨h, hpost⟩ := within_append.mp h
    obtain ⟨hfirst, hcondition⟩ := within_append.mp h
    refine (redirectHeader_settles bound first hfirst).bind
      fun ⟨first, bound⟩ later₁ h₁ hfirst => ?_
    have hread := readExpr?_settles bound condition hcondition
    refine (hread.mono h₁).bind fun condition later₂ h₂ hcondition => ?_
    have hredirected := redirectHeader_settles bound post hpost
    refine ((hredirected.mono h₁).mono h₂).bind fun ⟨post, bound⟩ later₃ h₃ hpost => ?_
    have htested := within_append.mpr ⟨Within.grow hfirst h₂, hcondition⟩
    exact .pure (within_append.mpr ⟨htested.grow h₃, hpost⟩)
  | .range key value define source, h => by
    -- Both ways to check the source end in the same step.
    have hfinish : (read bound source (redirectExpr cx bound source) >>= fun source =>
        pure (Clause.range key value define source,
          if define then bound.hide ((key.toList ++ value.toList).map (·.name)) else
            bound)).Settles false T known fun x => x.1.nodes :=
      (read_settles h (redirectExpr_settles bound source h)).bind
        fun _ _ _ hsource => .pure hsource
    unfold redirectClause
    cases source with
    | ident name span => exact Settles.ite (fun _ => .note_bind hfinish) fun _ => hfinish
    | _ => exact hfinish

theorem redirectHeader_settles (bound : Bound) :
    ∀ stmt : Option Stmt, Within (T.good known) (Stmt.nodesOption stmt) →
      (redirectHeader cx bound stmt).Settles false T known fun x => Stmt.nodesOption x.1
  | none, _ => .pure within_nil
  | some stmt, h => by
    have hstmt := redirectStmt_settles bound stmt h
    cases stmt with
    | bind names call span => exact .note_bind (.pure h)
    | _ => exact hstmt.collect.bind fun _ _ _ hx => .pure (within_getLast? hx)
end

end Body

/-- Every name in the lowered body of a function is one of the source, one that was taken from the
supply, or one that is inserted as it is. -/
theorem named_redirectBlock (htable : cx.table.IsPlain) (bound : Bound) (body : Block)
    (supply : NameSupply) :
    let pass := redirectBlock cx bound body
    let T := Node.Trait.named (insertedNames cx.settings)
    Within (T.good (pass.drawn supply ++ body.nodes.flatMap Node.names))
      (pass.runWith supply).value.nodes :=
  (redirectBlock_settles htable bound body .named_self).runWith supply
    fun hstrict => by cases hstrict

/-! ### The pass over a unit -/

/-- A function keeps all but its body, and the nodes of the new body are good. -/
theorem lowerFunction_yields {good : Node → Bool} {table : SignatureTable} {settings : Settings}
    (hgood : Node.IsLocal good) (htable : table.IsPlain) {f : Function}
    (hbody : Within good f.body.nodes) :
    (lowerFunction table settings f).Yields fun f' => ∃ body,
      f' = { f with body } ∧ Within good body.nodes := by
  let cx : Context := { Scope.ofFunction table f with settings }
  let T := hgood.trait (insertedNames cx.settings)
  have hlowered : (redirectBlock cx [] f.body).Settles false T [] Block.nodes :=
    redirectBlock_settles htable [] f.body hbody
  have hrun : ((redirectBlock cx [] f.body).runWith (.avoiding settings.stem f.names)).Yields
      fun body => Within good body.nodes :=
    fun _ => hlowered.runWith _ fun hstrict => by cases hstrict
  refine hrun.bind fun body hbody => ?_
  exact (Noted.yields_record _).bind fun _ _ => .pure ⟨body, rfl, hbody⟩

/-- A good item stays good, and its return clause stays one. -/
theorem lowerItem_yields {good : Node → Bool} {table : SignatureTable} {settings : Settings}
    (hgood : Node.IsLocal good) (htable : table.IsPlain) {item : Item}
    (hitem : item.isWithin good = true) (hclause : Ty.isClause item.returns? = true) :
    (lowerItem table settings item).Yields fun item' =>
      item'.isWithin good = true ∧ Ty.isClause item'.returns? = true := by
  cases item with
  | func f =>
    obtain ⟨hparams, hbody⟩ := Item.isWithin_func.mp hitem
    by_cases hbinding : f.body.hasBinding = true
    · simp only [lowerItem, hbinding, if_true]
      refine (lowerFunction_yields hgood htable hbody).bind fun f' hf' => ?_
      obtain ⟨body, rfl, hbody⟩ := hf'
      exact .pure ⟨Item.isWithin_func.mpr ⟨hparams, hbody⟩, hclause⟩
    · simp only [lowerItem, hbinding]
      exact .pure ⟨hitem, hclause⟩
  | struct decl => exact .pure ⟨hitem, hclause⟩
  | enum decl => exact .pure ⟨hitem, hclause⟩
  | const decl => exact .pure ⟨hitem, hclause⟩
  | support stem => exact .pure ⟨hitem, hclause⟩

end Dispatch

/-- What holds of every item that is lowered and of support code holds of the unit. -/
theorem dispatchTasks_yields_of_lowerItem {table : SignatureTable} {settings : Settings}
    {program : Program} {Q : Item → Prop}
    (hitems : ∀ item ∈ program.items, (Dispatch.lowerItem table settings item).Yields Q)
    (hsupport : ∀ stem, Q (.support stem)) :
    (dispatchTasks table settings program).Yields fun program' =>
      ∀ item ∈ program'.items, Q item := by
  refine (Noted.yields_mapM hitems).bind fun items hitems => ?_
  split
  · refine (Noted.yields_require _).bind fun _ _ => .pure fun item hitem => ?_
    unfold Dispatch.withSupport at hitem
    split at hitem
    · exact hitems item hitem
    · rcases List.mem_append.mp hitem with hitem | hitem
      · exact hitems item hitem
      · obtain rfl := List.mem_singleton.mp hitem
        exact hsupport settings.stem
  · exact .pure hitems

/-- What becomes of an item stands in its place, as support code comes after all other items. -/
theorem dispatchTasks_yields_getElem? {table : SignatureTable} {settings : Settings}
    {program : Program} {T : Item → Item → Prop}
    (hitems : ∀ item, (Dispatch.lowerItem table settings item).Yields (T item)) {i : Nat}
    {item : Item} (hitem : program.items[i]? = some item) :
    (dispatchTasks table settings program).Yields fun program' =>
      ∃ item', program'.items[i]? = some item' ∧ T item item' := by
  refine (Noted.yields_mapM_getElem? hitems program.items).bind fun items hitems => ?_
  obtain ⟨item', hitem', hbecomes⟩ := hitems i item hitem
  split
  · refine (Noted.yields_require _).bind fun _ _ => .pure ⟨item', ?_, hbecomes⟩
    show (Dispatch.withSupport settings.stem items)[i]? = _
    unfold Dispatch.withSupport
    split
    · exact hitem'
    · rw [List.getElem?_append_left (List.getElem?_eq_some_iff.mp hitem').1]
      exact hitem'
  · exact .pure ⟨item', hitem', hbecomes⟩

/-- The pass keeps local properties of the nodes of a unit, and the support code that it adds has
no nodes. -/
theorem dispatchTasks_keeps {good : Node → Bool} (hgood : Node.IsLocal good)
    {table : SignatureTable} (settings : Settings) (htable : table.IsPlain) {program : Program}
    (h : ∀ item ∈ program.items,
      item.isWithin good = true ∧ Ty.isClause item.returns? = true) :
    (dispatchTasks table settings program).Yields fun program' => ∀ item ∈ program'.items,
      item.isWithin good = true ∧ Ty.isClause item.returns? = true := by
  refine dispatchTasks_yields_of_lowerItem (fun item hitem => ?_) fun _ => ⟨rfl, rfl⟩
  exact Dispatch.lowerItem_yields hgood htable (h item hitem).1 (h item hitem).2

end Desugar
