import Desugar.Proofs.Pass.Yields
import Desugar.Proofs.Template.Expand
import Desugar.Proofs.Tree.Lowered

/-!
# Expansion of templates is complete

Every template of a unit is expanded, those inside other templates and inside function literals
too, and the calls that take their place have no construct that an earlier pass removed.

- `Expr.rebuild_expands` and the theorems beside it: one for each kind of tree.
- `expandTemplates_keeps`: what the pass makes of a unit.
-/

namespace Desugar

/-- The node has the property and is no template. -/
def Node.isExpanded (good : Node → Bool) (node : Node) : Bool := good node && !node.isTemplate

/-- Without a fault, the nodes of the value have the property and none of them is a template. -/
abbrev Noted.Expands (good : Node → Bool) {α : Type} (x : Noted α) (nodes : α → List Node) :
    Prop :=
  x.Yields fun a => Within (Node.isExpanded good) (nodes a)

variable {function : String} {good : Node → Bool}

/-- An inserted node is expanded, since it is no template. -/
theorem Node.IsLocal.isExpanded (hgood : Node.IsLocal good) {node : Node}
    (h : node.isInsertable = true) : node.isExpanded good = true := by
  have hlowered : node.isLowered = true := Node.isLowered_of_isInsertable h
  rw [Node.isLowered_eq, Bool.and_eq_true] at hlowered
  rw [Node.isExpanded, hgood.inserted node h, Bool.true_and]
  exact hlowered.2

/-- A statement whose parts are expanded. -/
theorem Node.IsLocal.stmt (hgood : Node.IsLocal good) {stmt stmt' : Stmt}
    (h : good (.stmt stmt) = true) (hshell : stmt.shell = stmt'.shell) :
    (Node.stmt stmt').isExpanded good = true :=
  Bool.and_eq_true_iff.mpr ⟨hgood.of_shell h (congrArg Node.stmt hshell), rfl⟩

/-- A node whose parts are expanded already. -/
theorem Expr.expandTemplate_expands (hgood : Node.IsLocal good) {e : Expr}
    (hnode : good (.expr e) = true) (hparts : Within (Node.isExpanded good) e.nodes.tail) :
    (e.expandTemplate function).Expands good Expr.nodes := by
  cases e with
  | template segments span =>
    cases hexpand : Template.expand function segments span with
    | error fault =>
      simp only [Expr.expandTemplate, hexpand]
      exact Noted.yields_report_bind fault
    | ok expanded =>
      simp only [Expr.expandTemplate, hexpand]
      obtain ⟨⟨text, args⟩, hformat, hexpand⟩ := bind_eq_ok hexpand
      cases hexpand
      -- The arguments of the call are the embeds, which were expanded before the template.
      have hargs : Within (Node.isExpanded good) (Expr.nodesList args) := by
        rw [Template.nodesList_format hformat]
        exact hparts
      have hreference : Within (Node.isExpanded good) (Path.reference function).nodes :=
        within_reference (fun _ _ => hgood.isExpanded rfl) (within_leaf.mpr (hgood.isExpanded rfl))
      refine (Noted.yields_require _).bind fun _ _ => .pure ?_
      refine within_pair.mpr ⟨hgood.isExpanded rfl, hreference, within_append.mpr ⟨?_, hargs⟩⟩
      exact within_leaf.mpr (hgood.isExpanded rfl)
  | _ => exact .pure (within_cons.mpr ⟨Bool.and_eq_true_iff.mpr ⟨hnode, rfl⟩, hparts⟩)

/-! ### Rebuilt trees -/

/-- Rebuilding keeps the form of a statement. -/
theorem Stmt.form_rebuild (f : Expr → Noted Expr) (stmt : Stmt) :
    (stmt.rebuild true f).value.form = stmt.form := by
  cases stmt <;> rfl

/-- Rebuilding keeps the kinds of statements in a header. -/
theorem Clause.rebuild_form (f : Expr → Noted Expr) (clause : Clause) :
    (clause.rebuild true f).Yields fun clause' => clause'.form = clause.form := by
  intro _
  have hoption (stmt : Option Stmt) :
      (Stmt.rebuildOption true f stmt).value.map Stmt.form = stmt.map Stmt.form := by
    cases stmt with
    | none => rfl
    | some stmt => exact congrArg some (Stmt.form_rebuild f stmt)
  cases clause with
  | three first condition post =>
    show Clause.three (Option.map Stmt.form _) none (Option.map Stmt.form _) = _
    rw [hoption first, hoption post]
    rfl
  | _ => rfl

section Body

-- In a mutual induction the linter does not see a hypothesis that is used in another theorem.
set_option linter.unusedSectionVars false

variable (hgood : Node.IsLocal good)

include hgood

mutual
/-- The expansion leaves no template behind, by recursion on the tree. -/
theorem Expr.rebuild_expands :
    ∀ e : Expr, Within good e.nodes →
      (e.rebuild true (Expr.expandTemplate function)).Expands good Expr.nodes
  | .ident _ _, h => Expr.expandTemplate_expands hgood (within_leaf.mp h) within_nil
  | .lit _ _, h => Expr.expandTemplate_expands hgood (within_leaf.mp h) within_nil
  | .ofType _ _, h => Expr.expandTemplate_expands hgood (within_leaf.mp h) within_nil
  | .call callee args _, h => by
    obtain ⟨hnode, hcallee, hargs⟩ := within_pair.mp h
    refine (Expr.rebuild_expands callee hcallee).bind fun callee hcallee => ?_
    refine (Expr.rebuildList_expands args hargs).bind fun args hargs => ?_
    have hparts := within_append.mpr ⟨hcallee, hargs⟩
    exact Expr.expandTemplate_expands hgood (hgood.of_shell hnode rfl) hparts
  | .template segments _, h => by
    obtain ⟨hnode, hsegments⟩ := within_cons.mp h
    refine (Segment.rebuildList_expands segments hsegments).bind fun segments hsegments => ?_
    exact Expr.expandTemplate_expands hgood (hgood.of_shell hnode rfl) hsegments
  | .attempt operand _, h => by
    obtain ⟨hnode, hoperand⟩ := within_cons.mp h
    refine (Expr.rebuild_expands operand hoperand).bind fun operand hoperand => ?_
    exact Expr.expandTemplate_expands hgood (hgood.of_shell hnode rfl) hoperand
  | .binary _ left right _, h => by
    obtain ⟨hnode, hleft, hright⟩ := within_pair.mp h
    refine (Expr.rebuild_expands left hleft).bind fun left hleft => ?_
    refine (Expr.rebuild_expands right hright).bind fun right hright => ?_
    have hparts := within_append.mpr ⟨hleft, hright⟩
    exact Expr.expandTemplate_expands hgood (hgood.of_shell hnode rfl) hparts
  | .unary _ operand _, h => by
    obtain ⟨hnode, hoperand⟩ := within_cons.mp h
    refine (Expr.rebuild_expands operand hoperand).bind fun operand hoperand => ?_
    exact Expr.expandTemplate_expands hgood (hgood.of_shell hnode rfl) hoperand
  | .selector base _ _, h => by
    obtain ⟨hnode, hbase⟩ := within_cons.mp h
    refine (Expr.rebuild_expands base hbase).bind fun base hbase => ?_
    exact Expr.expandTemplate_expands hgood (hgood.of_shell hnode rfl) hbase
  | .index base index _, h => by
    obtain ⟨hnode, hbase, hindex⟩ := within_pair.mp h
    refine (Expr.rebuild_expands base hbase).bind fun base hbase => ?_
    refine (Expr.rebuild_expands index hindex).bind fun index hindex => ?_
    have hparts := within_append.mpr ⟨hbase, hindex⟩
    exact Expr.expandTemplate_expands hgood (hgood.of_shell hnode rfl) hparts
  | .composite ty elements _, h => by
    obtain ⟨hnode, helements⟩ := within_cons.mp h
    refine (Element.rebuildList_expands elements helements).bind fun elements helements => ?_
    exact Expr.expandTemplate_expands hgood (hgood.of_shell hnode rfl) helements
  | .func params returns body _, h => by
    obtain ⟨hnode, hbody⟩ := within_cons.mp h
    refine (Block.rebuild_expands body hbody).bind fun body hbody => ?_
    exact Expr.expandTemplate_expands hgood (hgood.of_shell hnode rfl) hbody

theorem Expr.rebuildList_expands :
    ∀ es : List Expr, Within good (Expr.nodesList es) →
      (Expr.rebuildList true (Expr.expandTemplate function) es).Expands good Expr.nodesList
  | [], _ => .pure within_nil
  | e :: rest, h => by
    obtain ⟨he, hrest⟩ := within_append.mp h
    refine (Expr.rebuild_expands e he).bind fun e he => ?_
    refine (Expr.rebuildList_expands rest hrest).bind fun rest hrest => ?_
    exact .pure (within_append.mpr ⟨he, hrest⟩)

theorem Expr.rebuildOption_expands :
    ∀ e : Option Expr, Within good (Expr.nodesOption e) →
      (Expr.rebuildOption true (Expr.expandTemplate function) e).Expands good Expr.nodesOption
  | none, _ => .pure within_nil
  | some e, h => (Expr.rebuild_expands e h).bind fun _ he => .pure he

theorem Segment.rebuildList_expands :
    ∀ segments : List Segment, Within good (Segment.nodesList segments) →
      (Segment.rebuildList true (Expr.expandTemplate function) segments).Expands good
        Segment.nodesList
  | [], _ => .pure within_nil
  | .text _ :: rest, h => (Segment.rebuildList_expands rest h).bind fun _ hrest => .pure hrest
  | .embed value _ _ :: rest, h => by
    obtain ⟨hvalue, hrest⟩ := within_append.mp h
    refine (Expr.rebuild_expands value hvalue).bind fun value hvalue => ?_
    refine (Segment.rebuildList_expands rest hrest).bind fun rest hrest => ?_
    exact .pure (within_append.mpr ⟨hvalue, hrest⟩)

theorem Element.rebuildList_expands :
    ∀ elements : List Element, Within good (Element.nodesList elements) →
      (Element.rebuildList true (Expr.expandTemplate function) elements).Expands good
        Element.nodesList
  | [], _ => .pure within_nil
  | ⟨key, value⟩ :: rest, h => by
    obtain ⟨h, hrest⟩ := within_append.mp h
    obtain ⟨hkey, hvalue⟩ := within_append.mp h
    refine (Expr.rebuildOption_expands key hkey).bind fun key hkey => ?_
    refine (Expr.rebuild_expands value hvalue).bind fun value hvalue => ?_
    refine (Element.rebuildList_expands rest hrest).bind fun rest hrest => ?_
    exact .pure (within_append.mpr ⟨within_append.mpr ⟨hkey, hvalue⟩, hrest⟩)

theorem Block.rebuild_expands :
    ∀ block : Block, Within good block.nodes →
      (block.rebuild true (Expr.expandTemplate function)).Expands good Block.nodes
  | ⟨stmts, _⟩, h => (Stmt.rebuildList_expands stmts h).bind fun _ hstmts => .pure hstmts

theorem Stmt.rebuildList_expands :
    ∀ stmts : List Stmt, Within good (Stmt.nodesList stmts) →
      (Stmt.rebuildList true (Expr.expandTemplate function) stmts).Expands good Stmt.nodesList
  | [], _ => .pure within_nil
  | stmt :: rest, h => by
    obtain ⟨hstmt, hrest⟩ := within_append.mp h
    refine (Stmt.rebuild_expands stmt hstmt).bind fun stmt hstmt => ?_
    refine (Stmt.rebuildList_expands rest hrest).bind fun rest hrest => ?_
    exact .pure (within_append.mpr ⟨hstmt, hrest⟩)

theorem Stmt.rebuild_expands :
    ∀ stmt : Stmt, Within good stmt.nodes →
      (stmt.rebuild true (Expr.expandTemplate function)).Expands good Stmt.nodes
  | .var names ty values span, h => by
    obtain ⟨hnode, hvalues⟩ := within_cons.mp h
    refine (Expr.rebuildList_expands values hvalues).bind fun values hvalues => .pure ?_
    exact within_cons.mpr ⟨hgood.stmt hnode rfl, hvalues⟩
  | .assign targets _ values _, h => by
    obtain ⟨hnode, htargets, hvalues⟩ := within_pair.mp h
    refine (Expr.rebuildList_expands targets htargets).bind fun targets htargets => ?_
    refine (Expr.rebuildList_expands values hvalues).bind fun values hvalues => ?_
    exact .pure (within_pair.mpr ⟨hgood.stmt hnode rfl, htargets, hvalues⟩)
  | .expr value, h => by
    obtain ⟨hnode, hvalue⟩ := within_cons.mp h
    refine (Expr.rebuild_expands value hvalue).bind fun value hvalue => ?_
    exact .pure (within_cons.mpr ⟨hgood.stmt hnode rfl, hvalue⟩)
  | .ret values _, h => by
    obtain ⟨hnode, hvalues⟩ := within_cons.mp h
    refine (Expr.rebuildList_expands values hvalues).bind fun values hvalues => ?_
    exact .pure (within_cons.mpr ⟨hgood.stmt hnode rfl, hvalues⟩)
  | .cond branch, h => by
    obtain ⟨hnode, hbranch⟩ := within_cons.mp h
    refine (If.rebuild_expands branch hbranch).bind fun branch hbranch => ?_
    exact .pure (within_cons.mpr ⟨hgood.stmt hnode rfl, hbranch⟩)
  | .loop clause body span, h => by
    obtain ⟨hnode, hclause, hbody⟩ := within_pair.mp h
    refine ((Clause.rebuild_expands clause hclause).and
      (Clause.rebuild_form _ clause)).bind fun lowered ⟨hclause, hform⟩ => ?_
    refine (Block.rebuild_expands body hbody).bind fun body hbody => ?_
    have hshell : (Stmt.loop clause body span).shell = (Stmt.loop lowered body span).shell := by
      rw [Stmt.shell, Stmt.shell, hform]
    exact .pure (within_pair.mpr ⟨hgood.stmt hnode hshell, hclause, hbody⟩)
  | .throw value _, h => by
    obtain ⟨hnode, hvalue⟩ := within_cons.mp h
    refine (Expr.rebuild_expands value hvalue).bind fun value hvalue => ?_
    exact .pure (within_cons.mpr ⟨hgood.stmt hnode rfl, hvalue⟩)
  | .bind _ call _, h => by
    obtain ⟨hnode, hcall⟩ := within_cons.mp h
    refine (Expr.rebuild_expands call hcall).bind fun call hcall => ?_
    exact .pure (within_cons.mpr ⟨hgood.stmt hnode rfl, hcall⟩)
  | .go call _, h => by
    obtain ⟨hnode, hcall⟩ := within_cons.mp h
    refine (Expr.rebuild_expands call hcall).bind fun call hcall => ?_
    exact .pure (within_cons.mpr ⟨hgood.stmt hnode rfl, hcall⟩)
  | .defer call _, h => by
    obtain ⟨hnode, hcall⟩ := within_cons.mp h
    refine (Expr.rebuild_expands call hcall).bind fun call hcall => ?_
    exact .pure (within_cons.mpr ⟨hgood.stmt hnode rfl, hcall⟩)
  | .breakLoop _, h => .pure (within_leaf.mpr (hgood.stmt (within_leaf.mp h) rfl))
  | .continueLoop _, h => .pure (within_leaf.mpr (hgood.stmt (within_leaf.mp h) rfl))
  | .block body, h => by
    obtain ⟨hnode, hbody⟩ := within_cons.mp h
    refine (Block.rebuild_expands body hbody).bind fun body hbody => ?_
    exact .pure (within_cons.mpr ⟨hgood.stmt hnode rfl, hbody⟩)

theorem Stmt.rebuildOption_expands :
    ∀ stmt : Option Stmt, Within good (Stmt.nodesOption stmt) →
      (Stmt.rebuildOption true (Expr.expandTemplate function) stmt).Expands good Stmt.nodesOption
  | none, _ => .pure within_nil
  | some stmt, h => (Stmt.rebuild_expands stmt h).bind fun _ hstmt => .pure hstmt

theorem If.rebuild_expands :
    ∀ branch : If, Within good branch.nodes →
      (branch.rebuild true (Expr.expandTemplate function)).Expands good If.nodes
  | ⟨condition, thenBlock, otherwise, _⟩, h => by
    obtain ⟨h, hotherwise⟩ := within_append.mp h
    obtain ⟨hcondition, hthen⟩ := within_append.mp h
    refine (Expr.rebuild_expands condition hcondition).bind fun condition hcondition => ?_
    refine (Block.rebuild_expands thenBlock hthen).bind fun thenBlock hthen => ?_
    refine (Else.rebuild_expands otherwise hotherwise).bind fun otherwise hotherwise => ?_
    exact .pure (within_append.mpr ⟨within_append.mpr ⟨hcondition, hthen⟩, hotherwise⟩)

theorem Else.rebuild_expands :
    ∀ otherwise : Else, Within good otherwise.nodes →
      (otherwise.rebuild true (Expr.expandTemplate function)).Expands good Else.nodes
  | .none, _ => .pure within_nil
  | .block body, h => (Block.rebuild_expands body h).bind fun _ hbody => .pure hbody
  | .elseIf branch, h => (If.rebuild_expands branch h).bind fun _ hbranch => .pure hbranch

theorem Clause.rebuild_expands :
    ∀ clause : Clause, Within good clause.nodes →
      (clause.rebuild true (Expr.expandTemplate function)).Expands good Clause.nodes
  | .infinite, _ => .pure within_nil
  | .condition test, h => (Expr.rebuild_expands test h).bind fun _ htest => .pure htest
  | .three first condition post, h => by
    obtain ⟨h, hpost⟩ := within_append.mp h
    obtain ⟨hfirst, hcondition⟩ := within_append.mp h
    refine (Stmt.rebuildOption_expands first hfirst).bind fun first hfirst => ?_
    refine (Expr.rebuildOption_expands condition hcondition).bind
      fun condition hcondition => ?_
    refine (Stmt.rebuildOption_expands post hpost).bind fun post hpost => ?_
    exact .pure (within_append.mpr ⟨within_append.mpr ⟨hfirst, hcondition⟩, hpost⟩)
  | .range _ _ _ source, h =>
    (Expr.rebuild_expands source h).bind fun _ hsource => .pure hsource
end

end Body

/-- Only functions and constants have code to expand templates in. -/
theorem Item.expandTemplates_expands (hgood : Node.IsLocal good) {item : Item}
    (hitem : item.isWithin good = true) :
    (item.expandTemplates function).Yields fun item' =>
      item'.isWithin (Node.isExpanded good) = true ∧ item'.returns? = item.returns? := by
  cases item with
  | func decl =>
    obtain ⟨hparams, hbody⟩ := isWithin_func.mp hitem
    refine (Block.rebuild_expands hgood decl.body hbody).bind fun body hbody => .pure ?_
    exact ⟨isWithin_func.mpr ⟨hparams, hbody⟩, rfl⟩
  | const decl =>
    obtain ⟨hty, hvalue⟩ := isWithin_const.mp hitem
    refine (Expr.rebuild_expands hgood decl.value hvalue).bind fun value hvalue => .pure ?_
    exact ⟨isWithin_const.mpr ⟨hty, hvalue⟩, rfl⟩
  | struct decl => exact .pure ⟨hitem, rfl⟩
  | enum decl => exact .pure ⟨hitem, rfl⟩
  | support stem => exact .pure ⟨rfl, rfl⟩

/-- The pass keeps local properties of the nodes of a unit. -/
theorem expandTemplates_keeps (hgood : Node.IsLocal good) (settings : Settings) {program : Program}
    (h : ∀ item ∈ program.items,
      item.isWithin good = true ∧ Ty.isClause item.returns? = true) :
    (expandTemplates settings program).Yields fun program' => ∀ item ∈ program'.items,
      item.isWithin (Node.isExpanded good) = true ∧ Ty.isClause item.returns? = true := by
  have hitems : (program.items.mapM (Item.expandTemplates settings.formatFunction)).Yields
      fun items => ∀ item ∈ items,
        item.isWithin (Node.isExpanded good) = true ∧ Ty.isClause item.returns? = true := by
    refine Noted.yields_mapM fun item hitem => ?_
    obtain ⟨hnodes, hclause⟩ := h item hitem
    refine (Item.expandTemplates_expands hgood hnodes).mono fun item' ⟨hnodes', hreturns⟩ => ?_
    exact ⟨hnodes', hreturns ▸ hclause⟩
  exact hitems.bind fun _ hitems => .pure hitems

end Desugar
