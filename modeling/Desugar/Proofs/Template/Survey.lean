import Desugar.Proofs.Pass.Covers
import Desugar.Template.Expand

/-!
# Expansion takes note of templates

Each template is replaced by a call, and the package that provides the function is asked for. A
survey that only counts templates thus gathers nothing that is not gathered in the notes.

- `Survey.NotesTemplates`: templates count for no more than this note, and nothing else counts.
- `Expr.rebuild_covers` and the theorems beside it: one for each kind of tree.
- `expandTemplates_gathers`: what is gathered in a unit.
-/

namespace Desugar

variable {L : Type} [SemilatticeSup L] [OrderBot L] {survey : Survey L} {function : String}

/-- Templates count for no more than what is noted when they are expanded, and nothing else
counts. -/
structure Survey.NotesTemplates (survey : Survey L) (function : String) : Prop where
  settled : survey.settled = survey
  name : ∀ x, survey.name x = ⊥
  declare : ∀ header binder names, survey.declare header binder names = ⊥
  stray : survey.stray = ⊥
  func : ∀ params l, survey.func params l ≤ l
  template : survey.template ≤ survey.noted { imports := (Path.package? function).toList }

/-- The package is asked for, unless the template is at fault. -/
theorem Template.expand_covers (hs : survey.NotesTemplates function) (segments : List Segment)
    (span : Span) :
    (Expr.expandTemplate function (.template segments span)).Covers survey survey.template
      fun _ => ⊥ := by
  have hrequire : (Noted.require (Path.package? function).toList).Covers survey survey.template
      fun _ => ⊥ := fun _ => le_sup_of_le_right hs.template
  cases hexpand : Template.expand function segments span with
  | ok expanded =>
    simp only [Expr.expandTemplate, hexpand]
    exact hrequire.last
  | error fault =>
    simp only [Expr.expandTemplate, hexpand]
    intro hfaults
    cases hfaults

section Body

-- In a mutual induction the linter does not see a hypothesis that is used in another theorem.
set_option linter.unusedSectionVars false

variable (hs : survey.NotesTemplates function)

include hs

mutual
/-- What counts in a template is noted when it is expanded, by recursion on the tree. -/
theorem Expr.rebuild_covers : ∀ e : Expr,
    (e.rebuild true (Expr.expandTemplate function)).Covers survey (survey.expr e) fun _ => ⊥
  | .ident x _ => .mono .bot (hs.name x).le
  | .lit _ _ => .bot
  | .ofType _ _ => .bot
  | .call callee args _ =>
    .both (Expr.rebuild_covers callee) fun _ => .last (Expr.rebuildList_covers args)
  | .template segments span => by
    refine .mono (.both (Segment.rebuildList_covers segments) fun segments' => ?_)
      (sup_comm survey.template _).le
    exact Template.expand_covers hs segments' span
  | .attempt operand _ => .last (Expr.rebuild_covers operand)
  | .binary _ left right _ =>
    .both (Expr.rebuild_covers left) fun _ => .last (Expr.rebuild_covers right)
  | .unary _ operand _ => .last (Expr.rebuild_covers operand)
  | .selector base _ _ => .last (Expr.rebuild_covers base)
  | .index base index _ =>
    .both (Expr.rebuild_covers base) fun _ => .last (Expr.rebuild_covers index)
  | .composite _ elements _ => .last (Element.rebuildList_covers elements)
  | .func params _ body _ =>
    .mono (.last (Block.rebuild_covers survey.literal body)) (hs.func params _)

theorem Expr.rebuildList_covers : ∀ es : List Expr,
    (Expr.rebuildList true (Expr.expandTemplate function) es).Covers survey (survey.exprs es)
      fun _ => ⊥
  | [] => .bot
  | e :: rest => .both (Expr.rebuild_covers e) fun _ => .last (Expr.rebuildList_covers rest)

theorem Expr.rebuildOption_covers : ∀ e : Option Expr,
    (Expr.rebuildOption true (Expr.expandTemplate function) e).Covers survey (survey.exprOption e)
      fun _ => ⊥
  | none => .bot
  | some e => .last (Expr.rebuild_covers e)

theorem Segment.rebuildList_covers :
    ∀ segments : List Segment, (Segment.rebuildList true (Expr.expandTemplate function)
      segments).Covers survey (survey.segments segments) fun _ => ⊥
  | [] => .bot
  | .text _ :: rest => .last (Segment.rebuildList_covers rest)
  | .embed value _ _ :: rest =>
    .both (Expr.rebuild_covers value) fun _ => .last (Segment.rebuildList_covers rest)

theorem Element.rebuildList_covers :
    ∀ elements : List Element, (Element.rebuildList true (Expr.expandTemplate function)
      elements).Covers survey (survey.elements elements) fun _ => ⊥
  | [] => .bot
  | ⟨key, value⟩ :: rest => by
    rw [Survey.elements_cons, sup_assoc]
    exact .both (Expr.rebuildOption_covers key) fun _ => .both (Expr.rebuild_covers value)
      fun _ => .last (Element.rebuildList_covers rest)

theorem Block.rebuild_covers (header : Bool) :
    ∀ block : Block, (block.rebuild true (Expr.expandTemplate function)).Covers survey
      (survey.block header block) fun _ => ⊥
  | ⟨stmts, _⟩ => .last (Stmt.rebuildList_covers header stmts)

theorem Stmt.rebuildList_covers (header : Bool) :
    ∀ stmts : List Stmt, (Stmt.rebuildList true (Expr.expandTemplate function) stmts).Covers survey
      (survey.stmts header stmts) fun _ => ⊥
  | [] => .bot
  | stmt :: rest =>
    .both (Stmt.rebuild_covers header stmt) fun _ =>
      .last (Stmt.rebuildList_covers header rest)

theorem Stmt.rebuild_covers (header : Bool) :
    ∀ stmt : Stmt, (stmt.rebuild true (Expr.expandTemplate function)).Covers survey
      (survey.stmt header stmt) fun _ => ⊥
  | .var _ _ values _ => by
    rw [Survey.stmt_var, hs.declare, bot_sup_eq]
    exact .last (Expr.rebuildList_covers values)
  | .assign targets _ values _ =>
    .both (Expr.rebuildList_covers targets) fun _ => .last (Expr.rebuildList_covers values)
  | .expr value => .last (Expr.rebuild_covers value)
  | .ret values _ => .last (Expr.rebuildList_covers values)
  | .cond branch => .last (If.rebuild_covers header branch)
  | .loop clause body _ =>
    .both (Clause.rebuild_covers header clause) fun _ =>
      .last (Block.rebuild_covers header body)
  | .throw value _ => by
    rw [Survey.stmt_throw_of_settled hs.settled]
    exact .last (Expr.rebuild_covers value)
  | .bind _ call _ => by
    rw [Survey.stmt_bind, hs.declare, bot_sup_eq]
    exact .last (Expr.rebuild_covers call)
  | .go call _ => .last (Expr.rebuild_covers call)
  | .defer call _ => .last (Expr.rebuild_covers call)
  | .breakLoop _ => .bot
  | .continueLoop _ => .bot
  | .block body => .last (Block.rebuild_covers header body)

theorem Stmt.rebuildOption_covers : ∀ stmt : Option Stmt,
    (Stmt.rebuildOption true (Expr.expandTemplate function) stmt).Covers survey
      (survey.headerStmt stmt) fun _ => ⊥
  | none => .bot
  | some stmt => by
    rw [Survey.headerStmt_some, hs.stray, ite_self, bot_sup_eq]
    exact .last (Stmt.rebuild_covers true stmt)

theorem If.rebuild_covers (header : Bool) :
    ∀ branch : If, (branch.rebuild true (Expr.expandTemplate function)).Covers survey
      (survey.branch header branch) fun _ => ⊥
  | ⟨condition, thenBlock, otherwise, _⟩ => by
    rw [Survey.branch_mk, sup_assoc]
    exact .both (Expr.rebuild_covers condition) fun _ =>
      .both (Block.rebuild_covers header thenBlock) fun _ =>
        .last (Else.rebuild_covers header otherwise)

theorem Else.rebuild_covers (header : Bool) :
    ∀ otherwise : Else, (otherwise.rebuild true (Expr.expandTemplate function)).Covers survey
      (survey.otherwise header otherwise) fun _ => ⊥
  | .none => .bot
  | .block body => .last (Block.rebuild_covers header body)
  | .elseIf branch => .last (If.rebuild_covers header branch)

theorem Clause.rebuild_covers (header : Bool) :
    ∀ clause : Clause, (clause.rebuild true (Expr.expandTemplate function)).Covers survey
      (survey.clause header clause) fun _ => ⊥
  | .infinite => .bot
  | .condition test => .last (Expr.rebuild_covers test)
  | .three first condition post => by
    rw [Survey.clause_three, sup_assoc]
    exact .both (Stmt.rebuildOption_covers first) fun _ =>
      .both (Expr.rebuildOption_covers condition) fun _ =>
        .last (Stmt.rebuildOption_covers post)
  | .range _ _ _ source => by
    rw [Survey.clause_range, hs.declare, bot_sup_eq]
    exact .last (Expr.rebuild_covers source)
end

end Body

/-! ### The pass over a unit -/

/-- What counts in the templates of an item is noted. -/
theorem Item.expandTemplates_gathers (hs : survey.NotesTemplates function) (item : Item) :
    (item.expandTemplates function).Covers survey (survey.item item) fun _ => ⊥ := by
  cases item with
  | func f => exact .last (Block.rebuild_covers hs false f.body)
  | const c => exact .last (Expr.rebuild_covers hs c.value)
  | _ => exact .bot

/-- What is gathered in a unit is gathered in the notes. -/
theorem expandTemplates_gathers {settings : Settings}
    (hs : survey.NotesTemplates settings.formatFunction) (program : Program) :
    (expandTemplates settings program).Covers survey (gatherAll survey.item program.items)
      fun _ => ⊥ := by
  refine (Noted.Covers.mapM (Item.expandTemplates_gathers hs) program.items).next fun items => ?_
  exact .pure (gatherAll_le fun _ _ => bot_le)

end Desugar
