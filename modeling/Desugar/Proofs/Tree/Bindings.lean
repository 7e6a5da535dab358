import Desugar.Proofs.Dispatch.Unbound
import Desugar.Proofs.Emit.Accepted

/-!
# Go-bindings among the nodes

`Block.hasBinding` overlooks a go-binding that stands in a loop header itself. Apart from that it
finds the go-bindings that are nodes of a tree. So a tree without such nodes has no go-binding to
dispatch, and the converse holds where no loop header can hold one.

- `Block.hasBindingIn_eq_false`: nothing is found where there is nothing.
- `Block.noBind_nodes`: where nothing is found and headers fit on a line, there is nothing.
-/

namespace Desugar

/-- The node is a go-binding. -/
def Node.isBind : Node → Bool
  | .stmt (.bind _ _ _) => true
  | _ => false

/-- The node is a loop whose header fits on a line, or no loop. -/
def Node.hasInlineHeader : Node → Bool
  | .stmt (.loop clause _ _) => clause.isInline
  | _ => true

/-- No node of a list is a go-binding. -/
abbrev NoBind (nodes : List Node) : Prop := Within (fun node => !node.isBind) nodes

/-- Whether a node is a go-binding can be told without its parts, and inserted nodes are none. -/
theorem Node.isLocal_notBind : IsLocal fun node => !node.isBind where
  shell
    | .expr _ => rfl
    | .stmt s => by cases s <;> rfl
  inserted
    | .expr _, _ => rfl
    | .stmt s, h => by
      cases s with
      | bind names call span => cases h
      | _ => rfl

/-! ### Trees without go-bindings -/

mutual
/-- The search finds no go-binding if no node is one, by recursion on the tree. -/
theorem Expr.hasBinding_eq_false : ∀ e : Expr, NoBind e.nodes → e.hasBinding = false
  | .ident _ _, _ => rfl
  | .lit _ _, _ => rfl
  | .ofType _ _, _ => rfl
  | .call callee args _, h => by
    obtain ⟨-, hcallee, hargs⟩ := within_pair.mp h
    exact Bool.or_eq_false_iff.mpr
      ⟨Expr.hasBinding_eq_false callee hcallee, Expr.hasBindingList_eq_false_of args hargs⟩
  | .template segments _, h =>
    Segment.hasBindingList_eq_false segments (within_cons.mp h).2
  | .attempt operand _, h => Expr.hasBinding_eq_false operand (within_cons.mp h).2
  | .binary _ left right _, h => by
    obtain ⟨-, hleft, hright⟩ := within_pair.mp h
    exact Bool.or_eq_false_iff.mpr
      ⟨Expr.hasBinding_eq_false left hleft, Expr.hasBinding_eq_false right hright⟩
  | .unary _ operand _, h => Expr.hasBinding_eq_false operand (within_cons.mp h).2
  | .selector base _ _, h => Expr.hasBinding_eq_false base (within_cons.mp h).2
  | .index base index _, h => by
    obtain ⟨-, hbase, hindex⟩ := within_pair.mp h
    exact Bool.or_eq_false_iff.mpr
      ⟨Expr.hasBinding_eq_false base hbase, Expr.hasBinding_eq_false index hindex⟩
  | .composite _ elements _, h =>
    Element.hasBindingList_eq_false elements (within_cons.mp h).2
  | .func _ _ body _, h => Block.hasBindingIn_eq_false false body (within_cons.mp h).2

theorem Expr.hasBindingList_eq_false_of :
    ∀ es : List Expr, NoBind (Expr.nodesList es) → Expr.hasBindingList es = false
  | [], _ => rfl
  | e :: rest, h => by
    obtain ⟨he, hrest⟩ := within_append.mp h
    exact Bool.or_eq_false_iff.mpr
      ⟨Expr.hasBinding_eq_false e he, Expr.hasBindingList_eq_false_of rest hrest⟩

theorem Expr.hasBindingOption_eq_false :
    ∀ e : Option Expr, NoBind (Expr.nodesOption e) → Expr.hasBindingOption e = false
  | none, _ => rfl
  | some e, h => Expr.hasBinding_eq_false e h

theorem Segment.hasBindingList_eq_false :
    ∀ segments : List Segment, NoBind (Segment.nodesList segments) →
      Segment.hasBindingList segments = false
  | [], _ => rfl
  | .text _ :: rest, h => Segment.hasBindingList_eq_false rest h
  | .embed value _ _ :: rest, h => by
    obtain ⟨hvalue, hrest⟩ := within_append.mp h
    exact Bool.or_eq_false_iff.mpr
      ⟨Expr.hasBinding_eq_false value hvalue, Segment.hasBindingList_eq_false rest hrest⟩

theorem Element.hasBindingList_eq_false :
    ∀ elements : List Element, NoBind (Element.nodesList elements) →
      Element.hasBindingList elements = false
  | [], _ => rfl
  | ⟨key, value⟩ :: rest, h => by
    obtain ⟨h, hrest⟩ := within_append.mp h
    obtain ⟨hkey, hvalue⟩ := within_append.mp h
    exact Bool.or_eq_false_iff.mpr ⟨Bool.or_eq_false_iff.mpr
      ⟨Expr.hasBindingOption_eq_false key hkey, Expr.hasBinding_eq_false value hvalue⟩,
      Element.hasBindingList_eq_false rest hrest⟩

theorem Block.hasBindingIn_eq_false (header : Bool) :
    ∀ block : Block, NoBind block.nodes → block.hasBindingIn header = false
  | ⟨stmts, _⟩, h => Stmt.hasBindingInList_eq_false_of header stmts h

theorem Stmt.hasBindingInList_eq_false_of (header : Bool) :
    ∀ stmts : List Stmt, NoBind (Stmt.nodesList stmts) → Stmt.hasBindingInList header stmts = false
  | [], _ => rfl
  | stmt :: rest, h => by
    obtain ⟨hstmt, hrest⟩ := within_append.mp h
    exact Bool.or_eq_false_iff.mpr ⟨Stmt.hasBindingIn_eq_false header stmt hstmt,
      Stmt.hasBindingInList_eq_false_of header rest hrest⟩

theorem Stmt.hasBindingIn_eq_false (header : Bool) :
    ∀ stmt : Stmt, NoBind stmt.nodes → stmt.hasBindingIn header = false
  | .var _ _ values _, h => Expr.hasBindingList_eq_false_of values (within_cons.mp h).2
  | .assign targets _ values _, h => by
    obtain ⟨-, htargets, hvalues⟩ := within_pair.mp h
    exact Bool.or_eq_false_iff.mpr ⟨Expr.hasBindingList_eq_false_of targets htargets,
      Expr.hasBindingList_eq_false_of values hvalues⟩
  | .expr value, h => Expr.hasBinding_eq_false value (within_cons.mp h).2
  | .ret values _, h => Expr.hasBindingList_eq_false_of values (within_cons.mp h).2
  | .cond branch, h => If.hasBindingIn_eq_false header branch (within_cons.mp h).2
  | .loop clause body _, h => by
    obtain ⟨-, hclause, hbody⟩ := within_pair.mp h
    exact Bool.or_eq_false_iff.mpr ⟨Clause.hasBinding_eq_false clause hclause,
      Block.hasBindingIn_eq_false header body hbody⟩
  | .throw value _, h => Expr.hasBinding_eq_false value (within_cons.mp h).2
  | .bind _ _ _, h => nomatch (within_cons.mp h).1
  | .go call _, h => Expr.hasBinding_eq_false call (within_cons.mp h).2
  | .defer call _, h => Expr.hasBinding_eq_false call (within_cons.mp h).2
  | .breakLoop _, _ => rfl
  | .continueLoop _, _ => rfl
  | .block body, h => Block.hasBindingIn_eq_false header body (within_cons.mp h).2

theorem Stmt.hasBindingOption_eq_false :
    ∀ stmt : Option Stmt, NoBind (Stmt.nodesOption stmt) → Stmt.hasBindingOption stmt = false
  | none, _ => rfl
  | some stmt, h => Stmt.hasBindingIn_eq_false true stmt h

theorem If.hasBindingIn_eq_false (header : Bool) :
    ∀ branch : If, NoBind branch.nodes → branch.hasBindingIn header = false
  | ⟨condition, thenBlock, otherwise, _⟩, h => by
    obtain ⟨h, hotherwise⟩ := within_append.mp h
    obtain ⟨hcondition, hthen⟩ := within_append.mp h
    exact Bool.or_eq_false_iff.mpr ⟨Bool.or_eq_false_iff.mpr
      ⟨Expr.hasBinding_eq_false condition hcondition,
        Block.hasBindingIn_eq_false header thenBlock hthen⟩,
      Else.hasBindingIn_eq_false header otherwise hotherwise⟩

theorem Else.hasBindingIn_eq_false (header : Bool) :
    ∀ otherwise : Else, NoBind otherwise.nodes → otherwise.hasBindingIn header = false
  | .none, _ => rfl
  | .block body, h => Block.hasBindingIn_eq_false header body h
  | .elseIf branch, h => If.hasBindingIn_eq_false header branch h

theorem Clause.hasBinding_eq_false :
    ∀ clause : Clause, NoBind clause.nodes → clause.hasBinding = false
  | .infinite, _ => rfl
  | .condition test, h => Expr.hasBinding_eq_false test h
  | .three first condition post, h => by
    obtain ⟨h, hpost⟩ := within_append.mp h
    obtain ⟨hfirst, hcondition⟩ := within_append.mp h
    exact Bool.or_eq_false_iff.mpr ⟨Bool.or_eq_false_iff.mpr
      ⟨Stmt.hasBindingOption_eq_false first hfirst,
        Expr.hasBindingOption_eq_false condition hcondition⟩,
      Stmt.hasBindingOption_eq_false post hpost⟩
  | .range _ _ _ source, h => Expr.hasBinding_eq_false source h
end

/-! ### Trees whose go-bindings are all found -/

/-- Of a statement that fits on a line nothing is overlooked. -/
theorem Stmt.hasBindingIn_of_isInline {stmt : Stmt} (h : stmt.isInline = true) :
    stmt.hasBindingIn true = stmt.hasBindingIn false := by
  cases stmt with
  | cond | loop | throw | bind | block => cases h
  | _ => rfl

/-- The headers of all loops among the nodes fit on a line. -/
abbrev InlineHeaders (nodes : List Node) : Prop := Within Node.hasInlineHeader nodes

mutual
/-- If the search finds no go-binding and loop headers fit on a line, then no node is one. -/
theorem Expr.noBind_nodes :
    ∀ e : Expr, InlineHeaders e.nodes → e.hasBinding = false → NoBind e.nodes
  | .ident _ _, _, _ => within_leaf.mpr rfl
  | .lit _ _, _, _ => within_leaf.mpr rfl
  | .ofType _ _, _, _ => within_leaf.mpr rfl
  | .call callee args _, h, hfalse => by
    obtain ⟨-, hcallee, hargs⟩ := within_pair.mp h
    obtain ⟨hfcallee, hfargs⟩ := Bool.or_eq_false_iff.mp hfalse
    exact within_pair.mpr ⟨rfl, Expr.noBind_nodes callee hcallee hfcallee,
      Expr.noBind_nodesList args hargs hfargs⟩
  | .template segments _, h, hfalse =>
    within_cons.mpr ⟨rfl, Segment.noBind_nodesList segments (within_cons.mp h).2 hfalse⟩
  | .attempt operand _, h, hfalse =>
    within_cons.mpr ⟨rfl, Expr.noBind_nodes operand (within_cons.mp h).2 hfalse⟩
  | .binary _ left right _, h, hfalse => by
    obtain ⟨-, hleft, hright⟩ := within_pair.mp h
    obtain ⟨hfleft, hfright⟩ := Bool.or_eq_false_iff.mp hfalse
    exact within_pair.mpr ⟨rfl, Expr.noBind_nodes left hleft hfleft,
      Expr.noBind_nodes right hright hfright⟩
  | .unary _ operand _, h, hfalse =>
    within_cons.mpr ⟨rfl, Expr.noBind_nodes operand (within_cons.mp h).2 hfalse⟩
  | .selector base _ _, h, hfalse =>
    within_cons.mpr ⟨rfl, Expr.noBind_nodes base (within_cons.mp h).2 hfalse⟩
  | .index base index _, h, hfalse => by
    obtain ⟨-, hbase, hindex⟩ := within_pair.mp h
    obtain ⟨hfbase, hfindex⟩ := Bool.or_eq_false_iff.mp hfalse
    exact within_pair.mpr ⟨rfl, Expr.noBind_nodes base hbase hfbase,
      Expr.noBind_nodes index hindex hfindex⟩
  | .composite _ elements _, h, hfalse =>
    within_cons.mpr ⟨rfl, Element.noBind_nodesList elements (within_cons.mp h).2 hfalse⟩
  | .func _ _ body _, h, hfalse =>
    within_cons.mpr ⟨rfl, Block.noBind_nodes body (within_cons.mp h).2 hfalse⟩

theorem Expr.noBind_nodesList : ∀ es : List Expr, InlineHeaders (Expr.nodesList es) →
    Expr.hasBindingList es = false → NoBind (Expr.nodesList es)
  | [], _, _ => within_nil
  | e :: rest, h, hfalse => by
    obtain ⟨he, hrest⟩ := within_append.mp h
    obtain ⟨hfe, hfrest⟩ := Bool.or_eq_false_iff.mp hfalse
    exact within_append.mpr ⟨Expr.noBind_nodes e he hfe, Expr.noBind_nodesList rest hrest hfrest⟩

theorem Expr.noBind_nodesOption : ∀ e : Option Expr, InlineHeaders (Expr.nodesOption e) →
    Expr.hasBindingOption e = false → NoBind (Expr.nodesOption e)
  | none, _, _ => within_nil
  | some e, h, hfalse => Expr.noBind_nodes e h hfalse

theorem Segment.noBind_nodesList : ∀ segments : List Segment,
    InlineHeaders (Segment.nodesList segments) → Segment.hasBindingList segments = false →
      NoBind (Segment.nodesList segments)
  | [], _, _ => within_nil
  | .text _ :: rest, h, hfalse => Segment.noBind_nodesList rest h hfalse
  | .embed value _ _ :: rest, h, hfalse => by
    obtain ⟨hvalue, hrest⟩ := within_append.mp h
    obtain ⟨hfvalue, hfrest⟩ := Bool.or_eq_false_iff.mp hfalse
    exact within_append.mpr
      ⟨Expr.noBind_nodes value hvalue hfvalue, Segment.noBind_nodesList rest hrest hfrest⟩

theorem Element.noBind_nodesList : ∀ elements : List Element,
    InlineHeaders (Element.nodesList elements) → Element.hasBindingList elements = false →
      NoBind (Element.nodesList elements)
  | [], _, _ => within_nil
  | ⟨key, value⟩ :: rest, h, hfalse => by
    obtain ⟨h, hrest⟩ := within_append.mp h
    obtain ⟨hkey, hvalue⟩ := within_append.mp h
    obtain ⟨hfalse, hfrest⟩ := Bool.or_eq_false_iff.mp hfalse
    obtain ⟨hfkey, hfvalue⟩ := Bool.or_eq_false_iff.mp hfalse
    exact within_append.mpr ⟨within_append.mpr ⟨Expr.noBind_nodesOption key hkey hfkey,
      Expr.noBind_nodes value hvalue hfvalue⟩, Element.noBind_nodesList rest hrest hfrest⟩

theorem Block.noBind_nodes : ∀ block : Block, InlineHeaders block.nodes →
    block.hasBinding = false → NoBind block.nodes
  | ⟨stmts, _⟩, h, hfalse => Stmt.noBind_nodesList stmts h hfalse

theorem Stmt.noBind_nodesList : ∀ stmts : List Stmt, InlineHeaders (Stmt.nodesList stmts) →
    Stmt.hasBindingInList false stmts = false → NoBind (Stmt.nodesList stmts)
  | [], _, _ => within_nil
  | stmt :: rest, h, hfalse => by
    obtain ⟨hstmt, hrest⟩ := within_append.mp h
    obtain ⟨hfstmt, hfrest⟩ := Bool.or_eq_false_iff.mp hfalse
    exact within_append.mpr
      ⟨Stmt.noBind_nodes stmt hstmt hfstmt, Stmt.noBind_nodesList rest hrest hfrest⟩

theorem Stmt.noBind_nodes : ∀ stmt : Stmt, InlineHeaders stmt.nodes →
    stmt.hasBindingIn false = false → NoBind stmt.nodes
  | .var _ _ values _, h, hfalse =>
    within_cons.mpr ⟨rfl, Expr.noBind_nodesList values (within_cons.mp h).2 hfalse⟩
  | .assign targets _ values _, h, hfalse => by
    obtain ⟨-, htargets, hvalues⟩ := within_pair.mp h
    obtain ⟨hftargets, hfvalues⟩ := Bool.or_eq_false_iff.mp hfalse
    exact within_pair.mpr ⟨rfl, Expr.noBind_nodesList targets htargets hftargets,
      Expr.noBind_nodesList values hvalues hfvalues⟩
  | .expr value, h, hfalse =>
    within_cons.mpr ⟨rfl, Expr.noBind_nodes value (within_cons.mp h).2 hfalse⟩
  | .ret values _, h, hfalse =>
    within_cons.mpr ⟨rfl, Expr.noBind_nodesList values (within_cons.mp h).2 hfalse⟩
  | .cond branch, h, hfalse =>
    within_cons.mpr ⟨rfl, If.noBind_nodes branch (within_cons.mp h).2 hfalse⟩
  | .loop clause body _, h, hfalse => by
    obtain ⟨hinline, hclause, hbody⟩ := within_pair.mp h
    obtain ⟨hfclause, hfbody⟩ := Bool.or_eq_false_iff.mp hfalse
    exact within_pair.mpr ⟨rfl, Clause.noBind_nodes clause hinline hclause hfclause,
      Block.noBind_nodes body hbody hfbody⟩
  | .throw value _, h, hfalse =>
    within_cons.mpr ⟨rfl, Expr.noBind_nodes value (within_cons.mp h).2 hfalse⟩
  | .bind _ _ _, _, hfalse => nomatch hfalse
  | .go call _, h, hfalse =>
    within_cons.mpr ⟨rfl, Expr.noBind_nodes call (within_cons.mp h).2 hfalse⟩
  | .defer call _, h, hfalse =>
    within_cons.mpr ⟨rfl, Expr.noBind_nodes call (within_cons.mp h).2 hfalse⟩
  | .breakLoop _, _, _ => within_leaf.mpr rfl
  | .continueLoop _, _, _ => within_leaf.mpr rfl
  | .block body, h, hfalse =>
    within_cons.mpr ⟨rfl, Block.noBind_nodes body (within_cons.mp h).2 hfalse⟩

theorem Stmt.noBind_nodesOption : ∀ stmt : Option Stmt, stmt.all Stmt.isInline = true →
    InlineHeaders (Stmt.nodesOption stmt) → Stmt.hasBindingOption stmt = false →
      NoBind (Stmt.nodesOption stmt)
  | none, _, _, _ => within_nil
  | some stmt, hinline, h, hfalse =>
    Stmt.noBind_nodes stmt h ((Stmt.hasBindingIn_of_isInline hinline).symm.trans hfalse)

theorem If.noBind_nodes : ∀ branch : If, InlineHeaders branch.nodes →
    branch.hasBindingIn false = false → NoBind branch.nodes
  | ⟨condition, thenBlock, otherwise, _⟩, h, hfalse => by
    obtain ⟨h, hotherwise⟩ := within_append.mp h
    obtain ⟨hcondition, hthen⟩ := within_append.mp h
    obtain ⟨hfalse, hfotherwise⟩ := Bool.or_eq_false_iff.mp hfalse
    obtain ⟨hfcondition, hfthen⟩ := Bool.or_eq_false_iff.mp hfalse
    exact within_append.mpr ⟨within_append.mpr ⟨Expr.noBind_nodes condition hcondition hfcondition,
      Block.noBind_nodes thenBlock hthen hfthen⟩,
      Else.noBind_nodes otherwise hotherwise hfotherwise⟩

theorem Else.noBind_nodes : ∀ otherwise : Else, InlineHeaders otherwise.nodes →
    otherwise.hasBindingIn false = false → NoBind otherwise.nodes
  | .none, _, _ => within_nil
  | .block body, h, hfalse => Block.noBind_nodes body h hfalse
  | .elseIf branch, h, hfalse => If.noBind_nodes branch h hfalse

theorem Clause.noBind_nodes : ∀ clause : Clause, clause.isInline = true →
    InlineHeaders clause.nodes → clause.hasBinding = false → NoBind clause.nodes
  | .infinite, _, _, _ => within_nil
  | .condition test, _, h, hfalse => Expr.noBind_nodes test h hfalse
  | .three first condition post, hinline, h, hfalse => by
    obtain ⟨hifirst, hipost⟩ := Bool.and_eq_true_iff.mp hinline
    obtain ⟨h, hpost⟩ := within_append.mp h
    obtain ⟨hfirst, hcondition⟩ := within_append.mp h
    obtain ⟨hfalse, hfpost⟩ := Bool.or_eq_false_iff.mp hfalse
    obtain ⟨hffirst, hfcondition⟩ := Bool.or_eq_false_iff.mp hfalse
    exact within_append.mpr ⟨within_append.mpr
      ⟨Stmt.noBind_nodesOption first hifirst hfirst hffirst,
        Expr.noBind_nodesOption condition hcondition hfcondition⟩,
      Stmt.noBind_nodesOption post hipost hpost hfpost⟩
  | .range _ _ _ source, _, h, hfalse => Expr.noBind_nodes source h hfalse
end

end Desugar
