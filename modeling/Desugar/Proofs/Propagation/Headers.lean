import Mathlib.Data.Fintype.Order
import Mathlib.Order.CompletePartialOrder
import Desugar.Proofs.Propagation.Survey

/-!
# Error propagation keeps go-bindings

What is found of go-bindings is what a survey gathers, so error propagation keeps it: a go-binding
stays one, and one in a loop header stays in the header.

- `bindingSurvey`: the survey that gathers what is found, see `Block.found_eq`.
- `propagateErrors_covers`: what is found in a function is found in what becomes of it.
-/

namespace Desugar

/-- Gathers whether there is a go-binding, and whether one is in a loop header that is looked at. An
event that counts is as good as both. -/
def bindingSurvey (counts : Event → Bool) : Survey (Bool × Bool) where
  name _ := ⊥
  declare
    | header, .bind, _ => (!header, false)
    | _, _, _ => ⊥
  stray := (false, true)
  func _ body := (body.1, body.1 && body.2)
  literal := false
  template := ⊥
  thrownText := ⊥
  thrownTemplate := ⊥
  noted notes := (notes.events.any counts, notes.events.any counts)
  declare_header
    | false, .bind, _ => ⟨bot_le, le_rfl⟩
    | true, .bind, _ => le_rfl
    | _, .var, _ | _, .range, _ => le_rfl
  func_mono _ _ _ h := ⟨h.1, inf_le_inf h.1 h.2⟩
  func_mapType _ _ _ := rfl
  name_le_func _ _ _ _ := bot_le
  noted_left m n := by
    rw [Notes.events_append, List.any_append]
    exact ⟨Bool.left_le_or _ _, Bool.left_le_or _ _⟩
  noted_right m n := by
    rw [Notes.events_append, List.any_append]
    exact ⟨Bool.right_le_or _ _, Bool.right_le_or _ _⟩
  func_noted _ l n := by
    rcases l with ⟨first, second⟩
    cases n.events.any counts <;> cases first <;> cases second <;> decide

/-- Notes without an event that counts count for nothing. -/
theorem bindingSurvey_noted {counts : Event → Bool} {notes : Notes}
    (h : notes.events.any counts = false) : (bindingSurvey counts).noted notes = ⊥ :=
  congrArg (fun found => (found, found)) h

/-! ### What is found is what is gathered -/

section Found

variable (counts : Event → Bool)

mutual
/-- What is found in a tree is what the survey of go-bindings gathers. -/
theorem Expr.found_eq : ∀ e : Expr, e.found = (bindingSurvey counts).expr e
  | .ident _ _ | .lit _ _ | .ofType _ _ => rfl
  | .call callee args _ => congrArg₂ (· ⊔ ·) callee.found_eq (Expr.foundList_eq args)
  | .template segments _ => Segment.foundList_eq segments
  | .attempt operand _ => operand.found_eq
  | .binary _ left right _ => congrArg₂ (· ⊔ ·) left.found_eq right.found_eq
  | .unary _ operand _ => operand.found_eq
  | .selector base _ _ => base.found_eq
  | .index base index _ => congrArg₂ (· ⊔ ·) base.found_eq index.found_eq
  | .composite _ elements _ => Element.foundList_eq elements
  | .func params _ body _ => congrArg ((bindingSurvey counts).func params) (body.found_eq false)

theorem Expr.foundList_eq : ∀ es : List Expr, Expr.foundList es = (bindingSurvey counts).exprs es
  | [] => rfl
  | e :: rest => congrArg₂ (· ⊔ ·) e.found_eq (Expr.foundList_eq rest)

theorem Expr.foundOption_eq :
    ∀ e : Option Expr, Expr.foundOption e = (bindingSurvey counts).exprOption e
  | none => rfl
  | some e => e.found_eq

theorem Segment.foundList_eq : ∀ segments : List Segment,
    Segment.foundList segments = (bindingSurvey counts).segments segments
  | [] => rfl
  | .text _ :: rest => Segment.foundList_eq rest
  | .embed value _ _ :: rest => congrArg₂ (· ⊔ ·) value.found_eq (Segment.foundList_eq rest)

theorem Element.foundList_eq : ∀ elements : List Element,
    Element.foundList elements = (bindingSurvey counts).elements elements
  | [] => rfl
  | ⟨key, value⟩ :: rest =>
    congrArg₂ (· ⊔ ·) (congrArg₂ (· ⊔ ·) (Expr.foundOption_eq key) value.found_eq)
      (Element.foundList_eq rest)

theorem Block.found_eq (header : Bool) : ∀ block : Block,
    block.found header = (bindingSurvey counts).block header block
  | ⟨stmts, _⟩ => Stmt.foundList_eq header stmts

theorem Stmt.foundList_eq (header : Bool) : ∀ stmts : List Stmt,
    Stmt.foundList header stmts = (bindingSurvey counts).stmts header stmts
  | [] => rfl
  | stmt :: rest => congrArg₂ (· ⊔ ·) (stmt.found_eq header) (Stmt.foundList_eq header rest)

theorem Stmt.found_eq (header : Bool) : ∀ stmt : Stmt,
    stmt.found header = (bindingSurvey counts).stmt header stmt
  | .var _ _ values _ => by
    rw [Survey.stmt_var, ← Expr.foundList_eq values]
    exact (bot_sup_eq (Expr.foundList values)).symm
  | .assign targets _ values _ =>
    congrArg₂ (· ⊔ ·) (Expr.foundList_eq targets) (Expr.foundList_eq values)
  | .expr value => value.found_eq
  | .ret values _ => Expr.foundList_eq values
  | .cond branch => branch.found_eq header
  | .loop clause body _ => congrArg₂ (· ⊔ ·) (clause.found_eq header) (body.found_eq header)
  | .throw value _ => value.found_eq.trans (Survey.stmt_throw_of_settled rfl).symm
  | .bind names call _ =>
    congrArg ((bindingSurvey counts).declare header .bind names ⊔ ·) call.found_eq
  | .go call _ => call.found_eq
  | .defer call _ => call.found_eq
  | .breakLoop _ | .continueLoop _ => rfl
  | .block body => body.found_eq header

theorem Stmt.foundHeader_eq : ∀ stmt : Option Stmt,
    Stmt.foundOption stmt = (bindingSurvey counts).headerStmt stmt
  | none => rfl
  | some stmt => by
    rw [Survey.headerStmt_some, ← stmt.found_eq true]
    by_cases hbind : stmt.isBind = true
    · obtain ⟨names, call, span, rfl⟩ : ∃ names call span, stmt = .bind names call span := by
        cases stmt with
        | bind names call span => exact ⟨names, call, span, rfl⟩
        | _ => cases hbind
      rfl
    · rw [Stmt.foundOption_eq stmt (Bool.eq_false_of_not_eq_true hbind), if_neg hbind, bot_sup_eq]

theorem If.found_eq (header : Bool) : ∀ branch : If,
    branch.found header = (bindingSurvey counts).branch header branch
  | ⟨condition, thenBlock, otherwise, _⟩ =>
    congrArg₂ (· ⊔ ·) (congrArg₂ (· ⊔ ·) condition.found_eq (thenBlock.found_eq header))
      (otherwise.found_eq header)

theorem Else.found_eq (header : Bool) : ∀ otherwise : Else,
    otherwise.found header = (bindingSurvey counts).otherwise header otherwise
  | .none => rfl
  | .block body => body.found_eq header
  | .elseIf branch => branch.found_eq header

theorem Clause.found_eq (header : Bool) : ∀ clause : Clause,
    clause.found = (bindingSurvey counts).clause header clause
  | .infinite => rfl
  | .condition test => test.found_eq
  | .three first condition post =>
    congrArg₂ (· ⊔ ·)
      (congrArg₂ (· ⊔ ·) (Stmt.foundHeader_eq first) (Expr.foundOption_eq condition))
      (Stmt.foundHeader_eq post)
  | .range key value _ source => by
    rw [Survey.clause_range, ← source.found_eq]
    exact (bot_sup_eq source.found).symm
end

end Found

namespace Propagation

/-! ### The pass over a unit -/

/-- What is found in a function is found in what becomes of it. -/
theorem lowerItem_covers (table : SignatureTable) (settings : Settings) (item : Item) :
    (lowerItem table settings item).Yields fun item' => ∀ f, item = .func f →
      ∃ f', item' = .func f' ∧ f.body.found false ≤ f'.body.found false := by
  intro hfaults f hitem
  subst hitem
  revert hfaults
  show (lowerItem table settings (.func f)).Yields fun item' =>
    ∃ f', item' = .func f' ∧ f.body.found false ≤ f'.body.found false
  cases hsig : table.get? f.key with
  | none =>
    simp only [lowerItem, hsig]
    exact .pure ⟨f, rfl, le_rfl⟩
  | some sig =>
    simp only [lowerItem, hsig]
    have hfunction : (lowerFunction table settings f sig).Yields fun f' =>
        f.body.found false ≤ f'.body.found false := by
      intro hfaults
      -- No event counts.
      let counts : Event → Bool := fun _ => false
      have hnotes : (bindingSurvey counts).NotesErrors settings := ⟨bot_le, bot_le⟩
      have hle := lowerFunction_gathers hnotes table f sig hfaults
      rw [bindingSurvey_noted (List.any_eq_false.mpr fun _ _ => Bool.false_ne_true),
        sup_bot_eq] at hle
      rw [Block.found_eq counts, Block.found_eq counts]
      exact hle
    exact hfunction.bind fun f' hle => .pure ⟨f', rfl, hle⟩

end Propagation

/-- Error propagation loses no go-binding, neither in loop headers nor elsewhere. -/
theorem propagateErrors_covers (table : SignatureTable) (settings : Settings) {program : Program}
    {f : Function} (hf : .func f ∈ program.items) :
    (propagateErrors table settings program).Yields fun program' =>
      ∃ f', .func f' ∈ program'.items ∧ f.body.found false ≤ f'.body.found false := by
  refine (Noted.yields_mapM_getElem? (Propagation.lowerItem_covers table settings)
    program.items).bind fun items hitems => .pure ?_
  obtain ⟨i, hi⟩ := List.mem_iff_getElem?.mp hf
  obtain ⟨item', hitem', hcovers⟩ := hitems i (.func f) hi
  obtain ⟨f', rfl, hle⟩ := hcovers f rfl
  exact ⟨f', List.mem_of_getElem? hitem', hle⟩

end Desugar
