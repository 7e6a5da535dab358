import Desugar.Proofs.Pass.Yields
import Desugar.Proofs.Template.Expand
import Desugar.Tree.Bindings
import Desugar.Proofs.Tree.Lowered

/-!
# Expansion keeps what other passes look for

The call that takes the place of a template has the embeds of the template as its arguments. So
expansion neither adds nor removes a go-binding or a `try`.

- `Expr.rebuild_kept` and the theorems beside it: one for each kind of tree.
-/

namespace Desugar

/-- The one expression has a go-binding or a `try` if the other has. -/
structure Expr.Kept (e e' : Expr) : Prop where
  binding : e'.hasBinding = e.hasBinding
  attempt : e'.containsAttempt = e.containsAttempt

/-- The one block has a go-binding if the other has. -/
def Block.Kept (block block' : Block) : Prop :=
  ∀ header, block'.hasBindingIn header = block.hasBindingIn header

variable {function : String}

/-! ### A single template -/

/-- A function path has no go-binding. -/
theorem Path.hasBinding_reference (path : String) : (Path.reference path).hasBinding = false := by
  -- Every further part of the path is one more member around the same base.
  have hfold : ∀ (parts : List (List Char)) (base : Expr), base.hasBinding = false →
      (parts.foldl (fun base part => base.member (String.ofList part)) base).hasBinding =
        false := by
    intro parts
    induction parts with
    | nil => exact fun _ h => h
    | cons part rest ih => exact fun base h => ih _ h
  unfold Path.reference
  split
  · rfl
  · exact hfold _ _ rfl

/-- A function path has no `try`. -/
theorem Path.containsAttempt_reference (path : String) :
    (Path.reference path).containsAttempt = false :=
  Expr.containsAttempt_eq_false Node.isLocal_isPropagated.reference

/-- The go-bindings of a template are those of its embeds. -/
theorem hasBindingList_embedded (segments : List Segment) :
    Expr.hasBindingList (segments.filterMap Segment.embedded?) =
      Segment.hasBindingList segments := by
  induction segments with
  | nil => rfl
  | cons segment rest ih =>
    cases segment with
    | text value => exact ih
    | embed value verb span => exact congrArg (value.hasBinding || ·) ih

/-- A node is kept by its expansion as it is kept up to then. -/
theorem Expr.expandTemplate_kept {e x : Expr} (h : e.Kept x) :
    (x.expandTemplate function).Yields e.Kept := by
  cases x with
  | template segments span =>
    cases hexpand : Template.expand function segments span with
    | error fault =>
      simp only [Expr.expandTemplate, hexpand]
      exact Noted.yields_report_bind fault
    | ok expanded =>
      simp only [Expr.expandTemplate, hexpand]
      obtain ⟨⟨text, args⟩, hformat, hexpand⟩ := bind_eq_ok hexpand
      cases hexpand
      obtain rfl := Template.args_format hformat
      refine (Noted.yields_require _).bind fun _ _ => .pure ⟨?_, ?_⟩
      · rw [← h.binding, Expr.hasBinding, Path.hasBinding_reference, Expr.hasBindingList,
          hasBindingList_embedded]
        rfl
      · rw [← h.attempt, Expr.containsAttempt_eq, Expr.containsAttempt_eq (.template ..)]
        simp [Expr.isAttempt, Expr.parts, Path.containsAttempt_reference,
          Expr.containsAttempt_eq (.lit ..)]
  | _ => exact .pure h

/-! ### Whole trees -/

mutual
/-- The expansion neither adds nor removes a go-binding or a `try`, by recursion on the tree. -/
theorem Expr.rebuild_kept :
    ∀ e : Expr, (e.rebuild true (Expr.expandTemplate function)).Yields e.Kept
  | .ident _ _ => Expr.expandTemplate_kept ⟨rfl, rfl⟩
  | .lit _ _ => Expr.expandTemplate_kept ⟨rfl, rfl⟩
  | .ofType _ _ => Expr.expandTemplate_kept ⟨rfl, rfl⟩
  | .call callee args _ => by
    refine (Expr.rebuild_kept callee).bind fun callee' hcallee => ?_
    refine (Expr.rebuildList_kept args).bind fun args' hargs => ?_
    refine Expr.expandTemplate_kept ⟨?_, ?_⟩
    · rw [Expr.hasBinding, Expr.hasBinding, hcallee.binding, hargs.1]
    · rw [Expr.containsAttempt_eq, Expr.containsAttempt_eq (.call ..)]
      simp only [Expr.isAttempt, Expr.parts, List.any_cons, hcallee.attempt, hargs.2]
  | .template segments _ => by
    refine (Segment.rebuildList_kept segments).bind fun segments' hsegments => ?_
    refine Expr.expandTemplate_kept ⟨hsegments.1, ?_⟩
    rw [Expr.containsAttempt_eq, Expr.containsAttempt_eq (.template ..)]
    simp only [Expr.isAttempt, Expr.parts, any_containsAttempt_segments, hsegments.2]
  | .attempt operand _ => by
    refine (Expr.rebuild_kept operand).bind fun operand' hoperand => ?_
    refine Expr.expandTemplate_kept ⟨hoperand.binding, ?_⟩
    rw [Expr.containsAttempt_eq, Expr.containsAttempt_eq (.attempt ..)]
    rfl
  | .binary _ left right _ => by
    refine (Expr.rebuild_kept left).bind fun left' hleft => ?_
    refine (Expr.rebuild_kept right).bind fun right' hright => ?_
    refine Expr.expandTemplate_kept ⟨?_, ?_⟩
    · rw [Expr.hasBinding, Expr.hasBinding, hleft.binding, hright.binding]
    · rw [Expr.containsAttempt_eq, Expr.containsAttempt_eq (.binary ..)]
      simp only [Expr.isAttempt, Expr.parts, List.any_cons, hleft.attempt, hright.attempt]
  | .unary _ operand _ => by
    refine (Expr.rebuild_kept operand).bind fun operand' hoperand => ?_
    refine Expr.expandTemplate_kept ⟨hoperand.binding, ?_⟩
    rw [Expr.containsAttempt_eq, Expr.containsAttempt_eq (.unary ..)]
    simp only [Expr.isAttempt, Expr.parts, List.any_cons, hoperand.attempt]
  | .selector base _ _ => by
    refine (Expr.rebuild_kept base).bind fun base' hbase => ?_
    refine Expr.expandTemplate_kept ⟨hbase.binding, ?_⟩
    rw [Expr.containsAttempt_eq, Expr.containsAttempt_eq (.selector ..)]
    simp only [Expr.isAttempt, Expr.parts, List.any_cons, hbase.attempt]
  | .index base index _ => by
    refine (Expr.rebuild_kept base).bind fun base' hbase => ?_
    refine (Expr.rebuild_kept index).bind fun index' hindex => ?_
    refine Expr.expandTemplate_kept ⟨?_, ?_⟩
    · rw [Expr.hasBinding, Expr.hasBinding, hbase.binding, hindex.binding]
    · rw [Expr.containsAttempt_eq, Expr.containsAttempt_eq (.index ..)]
      simp only [Expr.isAttempt, Expr.parts, List.any_cons, hbase.attempt, hindex.attempt]
  | .composite _ elements _ => by
    refine (Element.rebuildList_kept elements).bind fun elements' helements => ?_
    refine Expr.expandTemplate_kept ⟨helements.1, ?_⟩
    rw [Expr.containsAttempt_eq, Expr.containsAttempt_eq (.composite ..)]
    simp only [Expr.isAttempt, Expr.parts, any_containsAttempt_elements, helements.2]
  | .func _ _ body _ => by
    -- No `try` inside a function literal counts for the expression around it.
    refine (Block.rebuild_kept body).bind fun body' hbody => ?_
    exact Expr.expandTemplate_kept ⟨hbody false, rfl⟩

theorem Expr.rebuildList_kept :
    ∀ es : List Expr, (Expr.rebuildList true (Expr.expandTemplate function) es).Yields fun es' =>
      Expr.hasBindingList es' = Expr.hasBindingList es ∧
        es'.any Expr.containsAttempt = es.any Expr.containsAttempt
  | [] => .pure ⟨rfl, rfl⟩
  | e :: rest => by
    refine (Expr.rebuild_kept e).bind fun e' he => ?_
    refine (Expr.rebuildList_kept rest).bind fun rest' hrest => .pure ⟨?_, ?_⟩
    · rw [Expr.hasBindingList, Expr.hasBindingList, he.binding, hrest.1]
    · rw [List.any_cons, List.any_cons, he.attempt, hrest.2]

theorem Expr.rebuildOption_kept :
    ∀ e : Option Expr, (Expr.rebuildOption true (Expr.expandTemplate function) e).Yields fun e' =>
      Expr.hasBindingOption e' = Expr.hasBindingOption e ∧
        (e'.map Expr.containsAttempt).getD false = (e.map Expr.containsAttempt).getD false
  | none => .pure ⟨rfl, rfl⟩
  | some e => (Expr.rebuild_kept e).bind fun _ he => .pure ⟨he.binding, he.attempt⟩

theorem Segment.rebuildList_kept : ∀ segments : List Segment,
    (Segment.rebuildList true (Expr.expandTemplate function) segments).Yields fun segments' =>
      Segment.hasBindingList segments' = Segment.hasBindingList segments ∧
        segments'.any Segment.containsAttempt = segments.any Segment.containsAttempt
  | [] => .pure ⟨rfl, rfl⟩
  | .text _ :: rest => (Segment.rebuildList_kept rest).bind fun _ hrest => .pure hrest
  | .embed value _ _ :: rest => by
    refine (Expr.rebuild_kept value).bind fun value' hvalue => ?_
    refine (Segment.rebuildList_kept rest).bind fun rest' hrest => .pure ⟨?_, ?_⟩
    · rw [Segment.hasBindingList, Segment.hasBindingList, hvalue.binding, hrest.1]
    · simp only [List.any_cons, Segment.containsAttempt, hvalue.attempt, hrest.2]

theorem Element.rebuildList_kept : ∀ elements : List Element,
    (Element.rebuildList true (Expr.expandTemplate function) elements).Yields fun elements' =>
      Element.hasBindingList elements' = Element.hasBindingList elements ∧
        elements'.any Element.containsAttempt = elements.any Element.containsAttempt
  | [] => .pure ⟨rfl, rfl⟩
  | ⟨key, value⟩ :: rest => by
    refine (Expr.rebuildOption_kept key).bind fun key' hkey => ?_
    refine (Expr.rebuild_kept value).bind fun value' hvalue => ?_
    refine (Element.rebuildList_kept rest).bind fun rest' hrest => .pure ⟨?_, ?_⟩
    · rw [Element.hasBindingList, Element.hasBindingList, hkey.1, hvalue.binding, hrest.1]
    · simp only [List.any_cons, Element.containsAttempt, hkey.2, hvalue.attempt, hrest.2]

theorem Block.rebuild_kept :
    ∀ block : Block, (block.rebuild true (Expr.expandTemplate function)).Yields block.Kept
  | ⟨stmts, _⟩ => (Stmt.rebuildList_kept stmts).bind fun _ hstmts => .pure hstmts

theorem Stmt.rebuildList_kept : ∀ stmts : List Stmt,
    (Stmt.rebuildList true (Expr.expandTemplate function) stmts).Yields fun stmts' =>
      ∀ header, Stmt.hasBindingInList header stmts' = Stmt.hasBindingInList header stmts
  | [] => .pure fun _ => rfl
  | stmt :: rest => by
    refine (Stmt.rebuild_kept stmt).bind fun stmt' hstmt => ?_
    refine (Stmt.rebuildList_kept rest).bind fun rest' hrest => .pure fun header => ?_
    rw [Stmt.hasBindingInList, Stmt.hasBindingInList, hstmt, hrest]

theorem Stmt.rebuild_kept : ∀ stmt : Stmt,
    (stmt.rebuild true (Expr.expandTemplate function)).Yields fun stmt' =>
      ∀ header, stmt'.hasBindingIn header = stmt.hasBindingIn header
  | .var _ _ values _ =>
    (Expr.rebuildList_kept values).bind fun _ hvalues => .pure fun _ => hvalues.1
  | .assign targets _ values _ => by
    refine (Expr.rebuildList_kept targets).bind fun targets' htargets => ?_
    refine (Expr.rebuildList_kept values).bind fun values' hvalues => .pure fun header => ?_
    rw [Stmt.hasBindingIn, Stmt.hasBindingIn, htargets.1, hvalues.1]
  | .expr value => (Expr.rebuild_kept value).bind fun _ hvalue => .pure fun _ => hvalue.binding
  | .ret values _ => (Expr.rebuildList_kept values).bind fun _ hvalues => .pure fun _ => hvalues.1
  | .cond branch => (If.rebuild_kept branch).bind fun _ hbranch => .pure hbranch
  | .loop clause body _ => by
    refine (Clause.rebuild_kept clause).bind fun clause' hclause => ?_
    refine (Block.rebuild_kept body).bind fun body' hbody => .pure fun header => ?_
    rw [Stmt.hasBindingIn, Stmt.hasBindingIn, hclause, hbody]
  | .throw value _ => (Expr.rebuild_kept value).bind fun _ hvalue => .pure fun _ => hvalue.binding
  | .bind _ call _ => by
    refine (Expr.rebuild_kept call).bind fun call' hcall => .pure fun header => ?_
    rw [Stmt.hasBindingIn, Stmt.hasBindingIn, hcall.binding]
  | .go call _ => (Expr.rebuild_kept call).bind fun _ hcall => .pure fun _ => hcall.binding
  | .defer call _ => (Expr.rebuild_kept call).bind fun _ hcall => .pure fun _ => hcall.binding
  | .breakLoop _ => .pure fun _ => rfl
  | .continueLoop _ => .pure fun _ => rfl
  | .block body => (Block.rebuild_kept body).bind fun _ hbody => .pure hbody

theorem Stmt.rebuildOption_kept : ∀ stmt : Option Stmt,
    (Stmt.rebuildOption true (Expr.expandTemplate function) stmt).Yields fun stmt' =>
      Stmt.hasBindingOption stmt' = Stmt.hasBindingOption stmt
  | none => .pure rfl
  | some stmt => (Stmt.rebuild_kept stmt).bind fun _ hstmt => .pure (hstmt true)

theorem If.rebuild_kept : ∀ branch : If,
    (branch.rebuild true (Expr.expandTemplate function)).Yields fun branch' =>
      ∀ header, branch'.hasBindingIn header = branch.hasBindingIn header
  | ⟨condition, thenBlock, otherwise, _⟩ => by
    refine (Expr.rebuild_kept condition).bind fun condition' hcondition => ?_
    refine (Block.rebuild_kept thenBlock).bind fun thenBlock' hthen => ?_
    refine (Else.rebuild_kept otherwise).bind fun otherwise' hotherwise => .pure fun header => ?_
    rw [If.hasBindingIn, If.hasBindingIn, hcondition.binding, hthen, hotherwise]

theorem Else.rebuild_kept : ∀ otherwise : Else,
    (otherwise.rebuild true (Expr.expandTemplate function)).Yields fun otherwise' =>
      ∀ header, otherwise'.hasBindingIn header = otherwise.hasBindingIn header
  | .none => .pure fun _ => rfl
  | .block body => (Block.rebuild_kept body).bind fun _ hbody => .pure hbody
  | .elseIf branch => (If.rebuild_kept branch).bind fun _ hbranch => .pure hbranch

theorem Clause.rebuild_kept : ∀ clause : Clause,
    (clause.rebuild true (Expr.expandTemplate function)).Yields fun clause' =>
      clause'.hasBinding = clause.hasBinding
  | .infinite => .pure rfl
  | .condition test => (Expr.rebuild_kept test).bind fun _ htest => .pure htest.binding
  | .three first condition post => by
    refine (Stmt.rebuildOption_kept first).bind fun first' hfirst => ?_
    refine (Expr.rebuildOption_kept condition).bind fun condition' hcondition => ?_
    refine (Stmt.rebuildOption_kept post).bind fun post' hpost => .pure ?_
    rw [Clause.hasBinding, Clause.hasBinding, hfirst, hcondition.1, hpost]
  | .range _ _ _ source => (Expr.rebuild_kept source).bind fun _ hsource => .pure hsource.binding
end

end Desugar
