import Desugar.Proofs.Pass.Covers
import Desugar.Proofs.Propagation.Order
import Desugar.Proofs.Template.Kept

/-!
# Error propagation loses nothing

Error propagation moves expressions to other places, but what a survey gathers in them it gathers
afterwards too: in what is left of the expression, or in the code that is emitted. The same goes for
the names that the pass makes up, since each of them is declared where it is made up. Only what is
thrown does not stay what it is, but a note is taken of the package that its error is made with.

- `Survey.NotesErrors`: thrown texts count for no more than these notes.
- `Propagation.lowerBlock_covers` and the theorems beside it: one for each function of the pass.
- `propagateErrors_gathers`: what is gathered in a unit.
-/

namespace Desugar

variable {L : Type} [SemilatticeSup L] [OrderBot L] {survey : Survey L}

/-- What is gathered in a template is gathered in its embeds. -/
theorem Survey.segments_le_embedded (survey : Survey L) (segments : List Segment) :
    survey.segments segments ≤ survey.exprs (segments.filterMap Segment.embedded?) := by
  induction segments with
  | nil => exact le_rfl
  | cons segment rest ih =>
    cases segment with
    | text value => exact ih
    | embed value verb span =>
      rw [segments_embed]
      exact sup_le_sup_left ih _

/-- Thrown texts count for no more than what is noted when errors are made of them. -/
structure Survey.NotesErrors (survey : Survey L) (settings : Settings) : Prop where
  text : survey.thrownText ≤
    survey.noted { imports := (Path.package? settings.errorConstructor).toList }
  template : survey.thrownTemplate ≤
    survey.noted { imports := (Path.package? settings.errorFormatFunction).toList }

namespace Propagation

open Pass

variable {cx : Context}

/-! ### Inserted code -/

/-- A conditional gathers its body. -/
theorem le_onlyIf (header : Bool) (condition : Expr) (body : List Stmt) :
    survey.stmts header body ≤ survey.stmt header (Stmt.onlyIf condition body) := by
  have hbranch : survey.stmt header (Stmt.onlyIf condition body) =
      survey.expr condition ⊔ survey.stmts header body ⊔ ⊥ := rfl
  rw [hbranch]
  exact le_sup_of_le_left le_sup_right

/-- An assignment gathers its value. -/
theorem le_store (header : Bool) (name : String) (e : Expr) :
    survey.expr e ≤ survey.stmts header [Stmt.store name e] := by
  rw [Survey.stmts_singleton, Stmt.store, Survey.stmt_assign, survey.exprs_singleton e]
  exact le_sup_right

/-- A spilled operand is gathered in the definition of its temporary. -/
theorem spill_covers (header : Bool) (e : Expr) :
    (spill e).Covers survey header (survey.expr e) survey.expr := by
  refine .ite (fun _ => .pure le_rfl) fun _ => ?_
  refine .fresh fun name => .after (fun _ => rfl) fun _ => ?_
  refine .emit_bind ?_ fun _ => rfl
  exact le_trans (sup_le_sup_right le_sup_left _) (survey.le_define header [name] e [])

theorem spillBefore_covers (header later : Bool) (e : Expr) :
    (spillBefore later e).Covers survey header (survey.expr e) survey.expr :=
  .ite (fun _ => spill_covers header e) fun _ => .pure le_rfl

/-- An operand that is lowered, and spilled if a `try` stands after it. -/
theorem operand_covers {β : Type} {header : Bool} {frame : Frame} {e : Expr} {f : Expr → Pass β}
    {source rest : L} {final : β → L} (later : Bool)
    (he : (lowerExpr cx frame e).Covers survey header source survey.expr)
    (hf : ∀ e', (f e').Covers survey header (survey.expr e' ⊔ rest) final) :
    (lowerExpr cx frame e >>= fun e' => spillBefore later e' >>= f).Covers survey header
      (source ⊔ rest) final :=
  he.bind fun e' => (spillBefore_covers header later e').bind hf

/-- The operands of a pinned place are gathered. -/
theorem pin_covers (header : Bool) (e : Expr) :
    (pin e).Covers survey header (survey.expr e) survey.expr := by
  cases e with
  | index base index span =>
    rw [Survey.expr_index]
    refine (spill_covers header base).bind fun base' => ?_
    exact (spill_covers header index).bindRight fun index' => .pure le_rfl
  | selector base field span => exact (spill_covers header base).next fun _ => .pure le_rfl
  | unary op operand span =>
    cases op with
    | deref => exact (spill_covers header operand).next fun _ => .pure le_rfl
    | _ => exact .pure le_rfl
  | _ => exact .pure le_rfl

/-- The operand of a `try` and the names of its values and of its error are in the definition that
takes its place. -/
theorem hoist_covers (header keep : Bool) (frame : Frame) {attempt : Attempt}
    {source : L} {target : Option (List Expr) → L}
    (h : attempt.lowered.Covers survey header source survey.expr) :
    (hoist cx frame keep attempt).Covers survey header source target := by
  refine .ite (fun _ => .report_bind _ _) fun _ => ?_
  split
  case h_2 => exact .report_bind _ _
  case h_1 =>
    split
    case h_2 => exact .report_bind _ _
    case h_1 =>
      refine .ite (fun _ => ?_) fun _ => .report_bind _ _
      refine h.next fun call => ?_
      cases keep with
      | true =>
        refine .freshList fun values => .fresh fun error => .emit_bind ?_ fun _ => rfl
        refine le_trans ?_ (survey.le_define header (values ++ [error]) call _)
        rw [Survey.names_append, Survey.names_cons, Survey.names_nil, sup_bot_eq, sup_assoc,
          sup_left_comm]
      | false =>
        -- No name is taken for values that are not kept.
        refine .after (fun _ => rfl) fun _ => .fresh fun error => .emit_bind ?_ fun _ => rfl
        refine le_trans (sup_le_sup_right ?_ _) (survey.le_define header _ call _)
        rw [Survey.names_append, Survey.names_cons]
        exact le_sup_of_le_right le_sup_left

/-- The call of a hoisted `try` is gathered in the emitted code. -/
theorem attemptValue_covers (header : Bool) (frame : Frame) {attempt : Attempt} {source : L}
    (h : attempt.lowered.Covers survey header source survey.expr) :
    (attemptValue cx frame attempt).Covers survey header source survey.expr := by
  have hhoist : (hoist cx frame true attempt).Covers survey header source fun _ => ⊥ :=
    hoist_covers header true frame h
  refine hhoist.next fun result => .quiet ?_ fun _ => bot_le
  intro supply
  split <;> rfl

/-- The call of a `try` that stands alone is gathered in the emitted code. -/
theorem attemptValues_covers (header : Bool) (frame : Frame) (expected : Nat) {attempt : Attempt}
    {source : L} (h : attempt.lowered.Covers survey header source survey.expr) :
    (attemptValues cx frame expected attempt).Covers survey header source survey.exprs := by
  have hhoist : (hoist cx frame true attempt).Covers survey header source fun _ => ⊥ :=
    hoist_covers header true frame h
  refine hhoist.next fun result => ?_
  cases result with
  | none => exact .pure bot_le
  | some values =>
    refine .ite (fun _ => ?_) fun _ => .report_bind _ _
    exact .pure bot_le

/-! ### The parts of statements -/

/-- The check of a dropped error takes no name. -/
theorem checkDiscarded_drawsNothing (e : Expr) : (checkDiscarded cx e).DrawsNothing :=
  fun supply => (checkDiscarded_eq _ e supply).1

/-- The check of the targets of a call takes no name. -/
theorem checkCapture_drawsNothing (targets : Nat) (values : List Expr) :
    (checkCapture cx targets values).DrawsNothing :=
  fun supply => (checkCapture_eq _ targets values supply).1

/-- The check of a return clause takes no name. -/
theorem literalShape_drawsNothing (returns : Option Ty) (span : Span) :
    (literalShape cx returns span).DrawsNothing := by
  intro supply
  unfold literalShape
  cases ReturnShape.ofClause cx.settings.optionPolicy returns <;> rfl

section Values

variable {header : Bool} {frame : Frame} {values : List Expr} {sole : Option Attempt}
  {ordered : Pass (List Expr)} {source : L}

/-- Assigned values are gathered. -/
theorem assigned_covers (targets : Nat)
    (hsole : ∀ attempt ∈ sole, attempt.lowered.Covers survey header source survey.expr)
    (hordered : ordered.Covers survey header source survey.exprs) :
    (assigned cx frame targets values sole ordered).Covers survey header source survey.exprs := by
  cases sole with
  | none => exact .after (checkCapture_drawsNothing targets values) fun _ => hordered
  | some attempt =>
    refine .ite (fun _ => ?_) fun _ => hordered
    exact attemptValues_covers header frame targets (hsole attempt rfl)

/-- Returned values are gathered. -/
theorem returned_covers (span : Span)
    (hsole : ∀ attempt ∈ sole, attempt.lowered.Covers survey header source survey.expr)
    (hordered : ordered.Covers survey header source survey.exprs) :
    (returned cx frame values span sole ordered).Covers survey header source survey.exprs := by
  have happend (values : List Expr) :
      survey.exprs values ≤ survey.exprs (values ++ [.nil]) := by
    rw [Survey.exprs_append]
    exact le_sup_left
  cases sole with
  | none =>
    refine .ite (fun _ => hordered) fun _ => .ite (fun _ => ?_) fun _ => ?_
    · exact hordered.next fun values => .pure (happend values)
    · exact .ite (fun _ => hordered) fun _ => .report_bind _ _
  | some attempt =>
    exact (attemptValues_covers header frame frame.valueCount (hsole attempt rfl)).next
      fun values => .pure (happend values)

end Values

/-- What is still to be gathered of an expression that is thrown, after it was lowered. -/
def owed (survey : Survey L) : Expr → L
  | .template segments _ => survey.thrownTemplate ⊔ survey.settled.segments segments
  | .lit (.string _) _ => survey.thrownText
  | e => survey.settled.expr e

/-- Of an error that is no text, all is still to be gathered. -/
theorem owed_eq {e : Expr} (h : isErrorText e = false) : owed survey e = survey.settled.expr e := by
  cases e with
  | lit value => cases value <;> first | rfl | cases h
  | template => cases h
  | _ => rfl

/-- An error that is no text counts as any other expression does. -/
theorem thrown_eq {e : Expr} (h : isErrorText e = false) : survey.thrown e = survey.expr e := by
  cases e with
  | lit value => cases value <;> first | rfl | cases h
  | template => cases h
  | _ => rfl

/-- What is thrown does not become a string literal or a template. -/
theorem thrown_covers {header : Bool} {frame : Frame} {e : Expr} (htext : isErrorText e = false)
    (he : (lowerExpr cx frame e).Covers survey.settled header (survey.expr e)
      survey.settled.expr) :
    (lowerExpr cx frame e).Covers survey.settled header (survey.thrown e) (owed survey) := by
  intro supply hfaults
  obtain ⟨xs, hxs, hcovers⟩ := he supply hfaults
  refine ⟨xs, hxs, ?_⟩
  rw [thrown_eq htext, Step.gathered, owed_eq (isErrorText_lowerExpr cx frame htext supply)]
  exact hcovers

/-- The package that an error is made with is noted, and the error has the embeds of the template
that it is formatted from. -/
theorem errorValue_covers (header : Bool) {settings : Settings}
    (hnotes : survey.NotesErrors settings) (e : Expr) :
    (errorValue settings e).Covers survey.settled header (owed survey e) survey.settled.expr := by
  by_cases htext : isErrorText e = true
  · cases e with
    | lit value span =>
      cases value with
      | string text =>
        have hrequire : (Pass.require settings.errorConstructor).Covers survey.settled header
            survey.thrownText fun _ => ⊥ := .note hnotes.text
        exact hrequire.next fun _ => .pure bot_le
      | _ => cases htext
    | template segments span =>
      have hrequire : (Pass.require settings.errorFormatFunction).Covers survey.settled header
          survey.thrownTemplate fun _ => ⊥ := .note hnotes.template
      unfold errorValue
      dsimp only
      split
      · rename_i expanded hexpand
        obtain ⟨⟨text, args⟩, hformat, hexpand⟩ := bind_eq_ok hexpand
        cases hexpand
        obtain rfl := Template.args_format hformat
        refine hrequire.bind fun _ => .pure (sup_le bot_le ?_)
        rw [Survey.expr_call, Survey.exprs_cons]
        exact le_sup_of_le_right (le_sup_of_le_right
          (survey.settled.segments_le_embedded segments))
      · intro supply hfaults
        cases hfaults
    | _ => cases htext
  · rw [Bool.not_eq_true] at htext
    rw [errorValue_eq htext, owed_eq htext]
    exact .pure le_rfl

/-- The condition of a loop is gathered in the header. -/
theorem loopCondition_covers (header : Bool) (frame : Frame) {test : Expr} {source : L}
    (h : (lowerExpr cx frame test).Covers survey header source survey.expr) :
    (loopCondition test (lowerExpr cx frame test)).Covers survey header source survey.expr := by
  refine .ite (fun _ => .report_bind _ _) fun hnone => ?_
  -- Nothing is hoisted, so nothing is lost with the code.
  have hquiet : (lowerExpr cx frame test).collect.Covers survey header source
      fun x => survey.expr x.1 := by
    intro supply hfaults
    have hcode := lowerExpr_code_eq_nil cx frame test supply (by simpa using hnone)
    have hcovers := h supply hfaults
    rw [Step.gathered, hcode] at hcovers
    exact hcovers
  exact hquiet.next fun _ => .pure le_rfl

/-- A started call is gathered where it stands. -/
theorem launched_covers (header : Bool) (frame : Frame) (launch : Launch) {call : Expr}
    {source : L} (h : (lowerExpr cx frame call).Covers survey header source survey.expr) :
    (launched launch call (lowerExpr cx frame call)).Covers survey header source survey.expr := by
  cases call with
  | attempt operand span => exact .report_bind _ _
  | _ => exact h

/-! ### Statements of loop headers -/

/-- What becomes of a go-binding ends with one. -/
theorem lowerStmt_ends_bind {stmt : Stmt} (frame : Frame) (h : stmt.isBind = true) :
    (lowerStmt cx frame stmt).Ends fun last => last.isBind = true := by
  cases stmt with
  | bind names call span => exact .after fun call => ends_emit rfl
  | _ => cases h

/-- The code of a header statement is gathered in the header, as its last statement, and before the
loop. -/
theorem stmts_le_headerStmt (header : Bool) (code : List Stmt) :
    survey.stmts true code ≤
      survey.headerStmt code.getLast? ⊔ survey.stmts header code.dropLast := by
  rcases List.eq_nil_or_concat code with rfl | ⟨rest, last, rfl⟩
  · exact bot_le
  · rw [List.concat_eq_append, Survey.stmts_append, Survey.stmts_singleton, List.getLast?_concat,
      List.dropLast_concat, sup_comm, Survey.headerStmt_some]
    exact sup_le_sup le_sup_right (survey.stmts_header header rest)

/-- The last of the statements that take the place of one in a header stays in the header, and
those before it come before the loop. -/
theorem lowerStmt_splits {stmt : Stmt} (header : Bool) (frame : Frame) {source : L}
    (h : (lowerStmt cx frame stmt).Covers survey true source fun _ => ⊥)
    {supply : NameSupply} (hfaults : (lowerStmt cx frame stmt supply).notes.faults = []) :
    let code := (lowerStmt cx frame stmt supply).code
    ∃ xs, supply.Draws xs (lowerStmt cx frame stmt supply).supply ∧
      survey.names xs ⊔ ((if stmt.isBind then survey.stray else ⊥) ⊔ source) ≤
        survey.headerStmt code.getLast? ⊔ survey.stmts header code.dropLast ⊔
          survey.noted (lowerStmt cx frame stmt supply).notes := by
  intro code
  obtain ⟨xs, hxs, hcovers⟩ := h supply hfaults
  rw [Step.gathered, bot_sup_eq] at hcovers
  have hle := hcovers.trans (sup_le_sup_right (stmts_le_headerStmt header code) _)
  refine ⟨xs, hxs, ?_⟩
  -- If the statement is a go-binding, then so is the one that stays in the header.
  have hstray : (if stmt.isBind then survey.stray else ⊥) ≤ survey.headerStmt code.getLast? := by
    by_cases hbind : stmt.isBind = true
    · obtain ⟨last, hlast, hisBind⟩ := lowerStmt_ends_bind frame hbind supply hfaults
      rw [if_pos hbind, show code.getLast? = some last from hlast, Survey.headerStmt_some,
        if_pos hisBind]
      exact le_sup_left
    · rw [if_neg hbind]
      exact bot_le
  rw [sup_left_comm]
  exact sup_le (le_sup_of_le_left (le_sup_of_le_left hstray)) hle

/-! ### The pass -/

section Body

-- In a mutual induction the linter does not see a hypothesis that is used in another theorem.
set_option linter.unusedSectionVars false

variable (hs : survey.NotesErrors cx.settings)

include hs

mutual
/-- Nothing that counts is lost in error propagation, by recursion on the tree. -/
theorem lowerExpr_covers (header : Bool) (frame : Frame) :
    ∀ e : Expr,
      (lowerExpr cx frame e).Covers survey.settled header (survey.expr e) survey.settled.expr
  | .ident _ _ => .pure le_rfl
  | .lit _ _ => .pure le_rfl
  | .ofType _ _ => .pure le_rfl
  | .attempt operand _ =>
    attemptValue_covers header frame (lowerExpr_covers header frame operand)
  | .binary op left right span => by
    rw [Survey.expr_binary]
    refine .ite (fun _ => ?_) fun _ => ?_
    · refine (lowerExpr_covers header frame left).bind fun left' => .fresh fun name => ?_
      have hdefine : (Pass.emit [Stmt.define [name] [left']]).Covers survey.settled header
          (survey.settled.name name ⊔ survey.settled.expr left') fun _ => ⊥ :=
        .emit (le_trans (sup_le_sup_right le_sup_left _)
          (survey.settled.le_define header [name] left' []))
      rw [← sup_assoc]
      refine hdefine.bind fun _ => ?_
      -- What the right operand needs runs only behind the condition.
      refine ((lowerExpr_covers header frame right).collect header).bindRight fun x => ?_
      refine .after (fun _ => rfl) fun _ => .emit_bind ?_ fun _ => rfl
      rw [bot_sup_eq, Survey.stmts_cons]
      refine le_sup_of_le_left (le_trans ?_ (le_onlyIf header _ _))
      rw [Survey.stmts_append, sup_comm]
      exact sup_le_sup_left (le_store header name x.1) _
    · refine operand_covers _ (lowerExpr_covers header frame left) fun left' => ?_
      exact (lowerExpr_covers header frame right).bindRight fun right' => .pure le_rfl
  | .call callee args _ => by
    rw [Survey.expr_call]
    refine operand_covers _ (lowerExpr_covers header frame callee) fun callee' => ?_
    exact (lowerOrdered_covers header frame args).bindRight fun args' => .pure le_rfl
  | .unary _ operand _ => (lowerExpr_covers header frame operand).next fun _ => .pure le_rfl
  | .selector base _ _ => (lowerExpr_covers header frame base).next fun _ => .pure le_rfl
  | .index base index _ => by
    rw [Survey.expr_index]
    refine operand_covers _ (lowerExpr_covers header frame base) fun base' => ?_
    exact (lowerExpr_covers header frame index).bindRight fun index' => .pure le_rfl
  | .composite _ elements _ =>
    (lowerElements_covers header frame elements).next fun _ => .pure le_rfl
  | .template segments _ =>
    (lowerSegments_covers header frame segments).bindRight fun _ => .pure le_rfl
  | .func params returns body span =>
    .after (literalShape_drawsNothing returns span) fun shape =>
      .func (lowerBlock_code _ _ body) (lowerBlock_covers survey.literal header
        (.ofShape cx.table frame.literalName shape) body)

theorem lowerOrdered_covers (header : Bool) (frame : Frame) :
    ∀ es : List Expr,
      (lowerOrdered cx frame es).Covers survey.settled header (survey.exprs es) survey.settled.exprs
  | [] => .pure le_rfl
  | e :: rest => by
    rw [Survey.exprs_cons]
    refine operand_covers _ (lowerExpr_covers header frame e) fun e' => ?_
    exact (lowerOrdered_covers header frame rest).bindRight fun rest' => .pure le_rfl

theorem lowerTargets_covers (header : Bool) (frame : Frame) (spilling : Bool) :
    ∀ es : List Expr,
      (lowerTargets cx frame spilling es).Covers survey.settled header (survey.exprs es)
        survey.settled.exprs
  | [] => .pure le_rfl
  | e :: rest => by
    rw [Survey.exprs_cons]
    refine (lowerExpr_covers header frame e).bind fun e' => ?_
    -- Pinned or not, the target is followed by the others.
    have hfinish (e : Expr) :
        (lowerTargets cx frame spilling rest >>= fun rest => pure (e :: rest)).Covers
          survey.settled header (survey.settled.expr e ⊔ survey.exprs rest) survey.settled.exprs :=
      (lowerTargets_covers header frame spilling rest).bindRight fun rest' => .pure le_rfl
    exact .ite (fun _ => (pin_covers header e').bind hfinish) fun _ => hfinish e'

theorem soleAttempt_covers (header : Bool) (frame : Frame) :
    ∀ es : List Expr, ∀ attempt ∈ soleAttempt cx frame es,
      attempt.lowered.Covers survey.settled header (survey.exprs es) survey.settled.expr
  | [] => by
    intro attempt hattempt
    cases hattempt
  | [e] => by
    intro attempt hattempt
    cases e with
    | attempt operand span =>
      cases hattempt
      exact (lowerExpr_covers header frame operand).mono (survey.exprs_singleton _).le
    | _ => cases hattempt
  | e :: _ :: _ => by
    intro attempt hattempt
    cases e <;> cases hattempt

theorem lowerElements_covers (header : Bool) (frame : Frame) :
    ∀ elements : List Element,
      (lowerElements cx frame elements).Covers survey.settled header (survey.elements elements)
        survey.settled.elements
  | [] => .pure le_rfl
  | ⟨none, value⟩ :: rest => by
    have hpos (survey : Survey L) (value : Expr) (rest : List Element) :
        survey.elements (⟨none, value⟩ :: rest) = survey.expr value ⊔ survey.elements rest := by
      rw [Survey.elements_cons, Survey.exprOption, bot_sup_eq]
    rw [hpos]
    refine operand_covers _ (lowerExpr_covers header frame value) fun value' => ?_
    exact (lowerElements_covers header frame rest).bindRight fun rest' => .pure (hpos _ _ _).ge
  | ⟨some key, value⟩ :: rest => by
    rw [Survey.elements_cons, sup_assoc]
    refine operand_covers _ (lowerExpr_covers header frame key) fun key' => ?_
    rw [← sup_assoc, sup_comm (survey.settled.expr key'), sup_assoc]
    refine operand_covers _ (lowerExpr_covers header frame value) fun value' => ?_
    rw [← sup_assoc, sup_comm (survey.settled.expr value')]
    exact (lowerElements_covers header frame rest).bindRight fun rest' => .pure le_rfl

theorem lowerSegments_covers (header : Bool) (frame : Frame) :
    ∀ segments : List Segment,
      (lowerSegments cx frame segments).Covers survey.settled header (survey.segments segments)
        survey.settled.segments
  | [] => .pure le_rfl
  | .text _ :: rest => (lowerSegments_covers header frame rest).next fun _ => .pure le_rfl
  | .embed value _ _ :: rest => by
    rw [Survey.segments_embed]
    refine operand_covers _ (lowerExpr_covers header frame value) fun value' => ?_
    exact (lowerSegments_covers header frame rest).bindRight fun rest' => .pure le_rfl

theorem lowerBlock_covers (header outer : Bool) (frame : Frame) :
    ∀ block : Block,
      (lowerBlock cx frame block).Covers survey.settled outer (survey.block header block)
        (survey.settled.block header)
  | ⟨stmts, _⟩ =>
    ((lowerStmts_covers header frame stmts).collect outer).next fun _ => .pure (bot_sup_eq _).le

theorem lowerStmts_covers (header : Bool) (frame : Frame) :
    ∀ stmts : List Stmt,
      (lowerStmts cx frame stmts).Covers survey.settled header (survey.stmts header stmts)
        fun _ => ⊥
  | [] => .pure le_rfl
  | stmt :: rest => by
    rw [Survey.stmts_cons]
    refine (lowerStmt_covers header frame stmt).bind fun _ => ?_
    rw [bot_sup_eq]
    exact lowerStmts_covers header frame rest

theorem lowerStmt_covers (header : Bool) (frame : Frame) :
    ∀ stmt : Stmt,
      (lowerStmt cx frame stmt).Covers survey.settled header (survey.stmt header stmt) fun _ => ⊥
  | .expr value => by
    have hvalue := lowerExpr_covers header frame value
    cases value with
    | attempt operand span =>
      exact .next (hoist_covers header false frame (lowerExpr_covers header frame operand))
        fun _ => .pure le_rfl
    | _ =>
      exact .after (checkDiscarded_drawsNothing _) fun _ => hvalue.next fun value' =>
        .emitOne (.expr value') le_rfl
  | .assign targets op values span => by
    rw [Survey.stmt_assign]
    refine (lowerTargets_covers header frame _ targets).bind fun targets' => ?_
    refine (assigned_covers targets'.length (soleAttempt_covers header frame values)
      (lowerOrdered_covers header frame values)).bindRight fun values' => ?_
    exact .emitOne (.assign targets' op values' span) le_rfl
  | .var names ty values span => by
    rw [Survey.stmt_var]
    refine (assigned_covers names.length (soleAttempt_covers header frame values)
      (lowerOrdered_covers header frame values)).bindRight fun values' => ?_
    exact .emitOne (.var names ty values' span) le_rfl
  | .ret values span => by
    have hordered := lowerOrdered_covers header frame values
    have hfinish (values : List Expr) :
        (Pass.emit [.ret values span]).Covers survey.settled header (survey.settled.exprs values)
          fun _ => ⊥ :=
      .emitOne (.ret values span) le_rfl
    refine .ite (fun _ => ?_) fun _ => hordered.next hfinish
    exact (returned_covers span (soleAttempt_covers header frame values) hordered).next hfinish
  | .throw value span => by
    rw [Survey.stmt_throw]
    refine .ite (fun _ => ?_) fun _ => .report _ _
    have hvalue : (lowerExpr cx frame value).Covers survey.settled header (survey.thrown value)
        (owed survey) := by
      have hother := lowerExpr_covers header frame value
      cases value with
      | template segments =>
        exact (lowerSegments_covers header frame segments).bindRight fun _ => .pure le_rfl
      | lit value => exact .pure (by cases value <;> exact le_rfl)
      | _ => exact thrown_covers rfl hother
    refine hvalue.next fun value' => (errorValue_covers header hs value').next fun error => ?_
    refine .emitOne (frame.earlyReturn error span) ?_
    have hreturn : survey.settled.stmt header (frame.earlyReturn error span) =
        survey.settled.exprs (frame.zeros ++ [error]) := rfl
    rw [hreturn, Survey.exprs_append, Survey.exprs_singleton]
    exact le_sup_right
  | .cond branch =>
    (lowerIf_covers header frame branch).next fun branch' => .emitOne (.cond branch') le_rfl
  | .loop clause body span => by
    rw [Survey.stmt_loop]
    refine ((lowerClause_covers header frame clause).collect header).bind fun x => ?_
    refine (lowerBlock_covers header header frame body).bindRight fun body' => ?_
    have hloop : survey.settled.clause header x.1 ⊔ survey.settled.stmts header x.2 ⊔
        survey.settled.block header body' ≤
          survey.settled.stmts header (x.2 ++ [.loop x.1 body' span]) := by
      rw [Survey.stmts_append, Survey.stmts_singleton, Survey.stmt_loop,
        sup_comm (survey.settled.clause header x.1), sup_assoc]
    refine .ite (fun _ => ?_) fun _ => .emit hloop
    exact .emitOne (.block (.inserted (x.2 ++ [.loop x.1 body' span]))) hloop
  | .bind names call span => by
    rw [Survey.stmt_bind]
    refine (launched_covers header frame .go (lowerExpr_covers header frame call)).bindRight
      fun call' => ?_
    exact .emitOne (.bind names call' span) le_rfl
  | .go call span =>
    .after (checkDiscarded_drawsNothing call) fun _ =>
      (launched_covers header frame .go (lowerExpr_covers header frame call)).next fun call' =>
        .emitOne (.go call' span) le_rfl
  | .defer call span =>
    .after (checkDiscarded_drawsNothing call) fun _ =>
      (launched_covers header frame .defer (lowerExpr_covers header frame call)).next
        fun call' => .emitOne (.defer call' span) le_rfl
  | .block body =>
    (lowerBlock_covers header header frame body).next fun body' => .emitOne (.block body') le_rfl
  | .breakLoop _ => .emit bot_le
  | .continueLoop _ => .emit bot_le

theorem lowerIf_covers (header : Bool) (frame : Frame) :
    ∀ branch : If,
      (lowerIf cx frame branch).Covers survey.settled header (survey.branch header branch)
        (survey.settled.branch header)
  | ⟨condition, thenBlock, otherwise, span⟩ => by
    rw [Survey.branch_mk, sup_assoc]
    refine (lowerExpr_covers header frame condition).bind fun condition' => ?_
    rw [sup_left_comm]
    refine (lowerBlock_covers header header frame thenBlock).bind fun thenBlock' => ?_
    rw [sup_left_comm, ← sup_assoc]
    exact (lowerElse_covers header frame otherwise).bindRight fun otherwise' => .pure le_rfl

theorem lowerElse_covers (header : Bool) (frame : Frame) :
    ∀ otherwise : Else,
      (lowerElse cx frame otherwise).Covers survey.settled header
        (survey.otherwise header otherwise) (survey.settled.otherwise header)
  | .none => .pure le_rfl
  | .block body => (lowerBlock_covers header header frame body).next fun body' => .pure le_rfl
  | .elseIf branch => by
    refine ((lowerIf_covers header frame branch).collect header).next fun x => ?_
    refine .ite (fun hempty => .pure ?_) fun _ => .pure ?_
    · rw [List.isEmpty_iff.mp hempty, Survey.stmts_nil, sup_bot_eq]
      exact le_rfl
    · have hblock : survey.settled.otherwise header (.block (.inserted (x.2 ++ [.cond x.1]))) =
          survey.settled.stmts header (x.2 ++ [.cond x.1]) := rfl
      rw [hblock, Survey.stmts_append, Survey.stmts_singleton, sup_comm]
      exact le_rfl

theorem lowerClause_covers (header : Bool) (frame : Frame) :
    ∀ clause : Clause,
      (lowerClause cx frame clause).Covers survey.settled header (survey.clause header clause)
        (survey.settled.clause header)
  | .infinite => .pure le_rfl
  | .condition test =>
    (loopCondition_covers header frame (lowerExpr_covers header frame test)).next fun _ =>
      .pure le_rfl
  | .three first condition post => by
    rw [Survey.clause_three, sup_assoc]
    refine (lowerFirst_covers header frame first).bind fun first' => ?_
    rw [sup_left_comm]
    refine (lowerCondition_covers header frame condition).bind fun condition' => ?_
    rw [sup_left_comm, ← sup_assoc]
    exact (lowerPost_covers header frame post).bindRight fun post' => .pure le_rfl
  | .range key value define source => by
    rw [Survey.clause_range]
    exact (lowerExpr_covers header frame source).bindRight fun _ => .pure le_rfl

theorem lowerFirst_covers (header : Bool) (frame : Frame) :
    ∀ first : Option Stmt,
      (lowerFirst cx frame first).Covers survey.settled header (survey.headerStmt first)
        survey.settled.headerStmt
  | none => .pure le_rfl
  | some stmt => by
    intro supply hfaults
    have hstmt : (lowerStmt cx frame stmt supply).notes.faults = [] := by
      rw [lowerFirst, notes_bind, Notes.faults_append, List.append_eq_nil_iff] at hfaults
      exact hfaults.1
    obtain ⟨xs, hxs, hsplits⟩ :=
      lowerStmt_splits header frame (lowerStmt_covers true frame stmt) hstmt
    refine ⟨xs, hxs, hsplits.trans (sup_le_sup (sup_le_sup_left ?_ _) ?_)⟩
    · show _ ≤ survey.settled.stmts header
        ([] ++ ((lowerStmt cx frame stmt supply).code.dropLast ++ []))
      rw [List.nil_append, List.append_nil]
    · exact survey.settled.noted_left _ _

theorem lowerCondition_covers (header : Bool) (frame : Frame) :
    ∀ condition : Option Expr,
      (lowerCondition cx frame condition).Covers survey.settled header (survey.exprOption condition)
        survey.settled.exprOption
  | none => .pure le_rfl
  | some test =>
    (loopCondition_covers header frame (lowerExpr_covers header frame test)).next fun _ =>
      .pure le_rfl

theorem lowerPost_covers (header : Bool) (frame : Frame) :
    ∀ post : Option Stmt,
      (lowerPost cx frame post).Covers survey.settled header (survey.headerStmt post)
        survey.settled.headerStmt
  | none => .pure le_rfl
  | some stmt => by
    refine .ite (fun _ => .report_bind _ _) fun hnone => ?_
    -- At most one statement takes its place, so none is lost.
    have hpost : (lowerStmt cx frame stmt).collect.Covers survey.settled header
        (survey.headerStmt (some stmt)) fun x => survey.settled.headerStmt x.2.getLast? := by
      intro supply hfaults
      obtain ⟨xs, hxs, hsplits⟩ :=
        lowerStmt_splits header frame (lowerStmt_covers true frame stmt) hfaults
      have hlength : (lowerStmt cx frame stmt supply).code.length ≤ 1 :=
        length_lowerStmt_code cx frame stmt supply (Bool.eq_false_of_not_eq_true hnone)
      have hdrop : (lowerStmt cx frame stmt supply).code.dropLast = [] := by
        apply List.eq_nil_of_length_eq_zero
        rw [List.length_dropLast]
        omega
      rw [hdrop] at hsplits
      exact ⟨xs, hxs, hsplits⟩
    exact hpost.next fun _ => .pure le_rfl
end

end Body

/-- The names that are taken for a body, and all that is gathered in it, are gathered in what
becomes of it or in the notes. -/
theorem lowerBlock_gathers {cx : Context} (hs : survey.NotesErrors cx.settings) (frame : Frame)
    (body : Block) {supply : NameSupply}
    (hfaults : (lowerBlock cx frame body supply).notes.faults = []) :
    ∃ xs, supply.Draws xs (lowerBlock cx frame body supply).supply ∧
      survey.settled.names xs ⊔ survey.block false body ≤
        survey.settled.block false (lowerBlock cx frame body supply).value ⊔
          survey.noted (lowerBlock cx frame body supply).notes := by
  obtain ⟨xs, hxs, hcovers⟩ := lowerBlock_covers hs false false frame body supply hfaults
  rw [Step.gathered, lowerBlock_code, Survey.stmts_nil, sup_bot_eq] at hcovers
  exact ⟨xs, hxs, hcovers⟩

/-! ### The pass over a unit -/

/-- What counts in the body of a function is gathered in the lowered body, or noted. -/
theorem lowerFunction_gathers {settings : Settings} (hs : survey.NotesErrors settings)
    (table : SignatureTable) (f : Function) (sig : Signature) :
    (lowerFunction table settings f sig).Covers survey (survey.block false f.body) fun f' =>
      survey.settled.block false f'.body := by
  let cx : Context := { Scope.ofFunction table f with settings }
  let frame : Frame := .ofShape table f.name sig.returns
  have hbody : ((lowerBlock cx frame f.body).runWith (.avoiding settings.stem f.names)).Covers
      survey (survey.block false f.body) (survey.settled.block false) := by
    intro hfaults
    have hcx : survey.NotesErrors cx.settings := hs
    obtain ⟨xs, -, hcovers⟩ := lowerBlock_gathers hcx frame f.body hfaults
    exact le_sup_right.trans hcovers
  exact hbody.next fun _ => .pure le_rfl

end Propagation

/-- What is gathered in an item before error propagation, which leaves alone what is thrown in a
function without a signature. -/
def Survey.declared (survey : Survey L) (table : SignatureTable) : Item → L
  | .func f =>
    if (table.get? f.key).isSome then survey.block false f.body
    else survey.settled.block false f.body
  | item => survey.settled.item item

/-- What counts in an item is gathered in what becomes of it, or noted. -/
theorem Propagation.lowerItem_gathers {settings : Settings} (hs : survey.NotesErrors settings)
    (table : SignatureTable) (item : Item) :
    (lowerItem table settings item).Covers survey (survey.declared table item)
      survey.settled.item := by
  cases item with
  | func f =>
    cases hsig : table.get? f.key with
    | none =>
      simp only [lowerItem, Survey.declared, hsig]
      exact .pure le_rfl
    | some sig =>
      simp only [lowerItem, Survey.declared, hsig, Option.isSome_some, if_true]
      exact (lowerFunction_gathers hs table f sig).next fun _ => .pure le_rfl
  | const c =>
    simp only [lowerItem]
    split
    · exact .after fun _ => .pure le_rfl
    · exact .pure le_rfl
  | _ => exact .pure le_rfl

/-- What is gathered in a unit is gathered in what becomes of it or in the notes. -/
theorem propagateErrors_gathers {settings : Settings} (hs : survey.NotesErrors settings)
    (table : SignatureTable) (program : Program) :
    (propagateErrors table settings program).Covers survey
      (gatherAll (survey.declared table) program.items)
      fun program' => gatherAll survey.settled.item program'.items :=
  (Noted.Covers.mapM (Propagation.lowerItem_gathers hs table) program.items).next fun _ =>
    .pure le_rfl

end Desugar
