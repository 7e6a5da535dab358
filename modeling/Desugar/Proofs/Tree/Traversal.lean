import Desugar.Proofs.Tree.Address
import Desugar.Tree.Rebuild
import Mathlib.Tactic.Choose

/-!
# Walking through a tree and rebuilding it

`Expr.visit` lists the nodes of a tree and `Expr.rebuild` hands them to a replacement. Both are
compared here with the addresses of the tree: each meets every address once, `visit` a node before
its children and `rebuild` after them, with the same order of the children. What is left out is
what is below a node that is not descended into.

- `Expr.visit_eq`, `Stmt.visit_eq`: a walk is put together from the walks through the children.
- `Expr.lists_visit`, `Stmt.lists_visit`: a walk lists the addresses that it can descend to.
- `Hands`: a computation returns a tree and does on the way what it is to do with these nodes.
- `Expr.exists_hands`, `Stmt.exists_hands`: what is handed over when a tree is rebuilt.
-/

namespace Desugar

/-! ### Walks -/

section Visit

variable (descend : Expr → Bool)

mutual
/-- To visit a block is to visit its roots one after another. -/
theorem Block.visit_eq : ∀ block : Block,
    block.visit descend = block.roots.flatMap (Expr.visit descend)
  | ⟨stmts, _⟩ => Stmt.visitList_eq stmts

theorem Stmt.visitList_eq : ∀ stmts : List Stmt,
    Stmt.visitList descend stmts = (Stmt.rootsList stmts).flatMap (Expr.visit descend)
  | [] => rfl
  | stmt :: rest => by
    rw [Stmt.visitList, Stmt.rootsList, List.flatMap_append, Stmt.visit_eq stmt,
      Stmt.visitList_eq rest]

/-- A walk through a statement goes through its roots one after the other. -/
theorem Stmt.visit_eq : ∀ stmt : Stmt,
    stmt.visit descend = stmt.roots.flatMap (Expr.visit descend)
  | .var _ _ values _ => Expr.visitList_eq descend values
  | .assign targets _ values _ => by
    rw [Stmt.visit, Stmt.roots, List.flatMap_append, Expr.visitList_eq, Expr.visitList_eq]
  | .expr value => (List.flatMap_singleton _ value).symm
  | .ret values _ => Expr.visitList_eq descend values
  | .cond branch => If.visit_eq branch
  | .loop clause body _ => by
    rw [Stmt.visit, Stmt.roots, List.flatMap_append, Clause.visit_eq clause, Block.visit_eq body]
  | .throw value _ => (List.flatMap_singleton _ value).symm
  | .bind _ call _ => (List.flatMap_singleton _ call).symm
  | .go call _ => (List.flatMap_singleton _ call).symm
  | .defer call _ => (List.flatMap_singleton _ call).symm
  | .breakLoop _ => rfl
  | .continueLoop _ => rfl
  | .block body => Block.visit_eq body

theorem Stmt.visitOption_eq : ∀ stmt : Option Stmt,
    Stmt.visitOption descend stmt = (Stmt.rootsOption stmt).flatMap (Expr.visit descend)
  | none => rfl
  | some stmt => Stmt.visit_eq stmt

theorem If.visit_eq : ∀ branch : If,
    branch.visit descend = branch.roots.flatMap (Expr.visit descend)
  | ⟨condition, thenBlock, otherwise, _⟩ => by
    rw [If.visit, If.roots, List.flatMap_cons, List.flatMap_append, List.append_assoc,
      Block.visit_eq thenBlock, Else.visit_eq otherwise]

theorem Else.visit_eq : ∀ otherwise : Else,
    otherwise.visit descend = otherwise.roots.flatMap (Expr.visit descend)
  | .none => rfl
  | .block body => Block.visit_eq body
  | .elseIf branch => If.visit_eq branch

theorem Clause.visit_eq : ∀ clause : Clause,
    clause.visit descend = clause.roots.flatMap (Expr.visit descend)
  | .infinite => rfl
  | .condition test => (List.flatMap_singleton _ test).symm
  | .three first condition post => by
    rw [Clause.visit, Clause.roots, List.flatMap_append, List.flatMap_append,
      Stmt.visitOption_eq first, Expr.visitOption_eq, Stmt.visitOption_eq post]
  | .range _ _ _ source => (List.flatMap_singleton _ source).symm
end

/-- A walk meets a node, and then goes through its children if it descends into the node. -/
theorem Expr.visit_eq (e : Expr) :
    e.visit descend = DepthFirst.pre.place e
      (if descend e then e.children.flatMap (Expr.visit descend) else []) := by
  cases e <;>
    simp [Expr.visit, visited, DepthFirst.place, Expr.children, Expr.parts, Expr.visitList_eq,
      Segment.visitList_eq, Element.visitList_eq, Block.visit_eq]

/-- A walk lists the nodes that it can descend to, a node before those below it. -/
theorem Expr.lists_visit (e : Expr) :
    Lists .pre (Meets descend e.at? e.above) (e.visit descend) := by
  induction e using Expr.childInduction with
  | step e ih =>
    rw [Expr.visit_eq]
    exact Lists.node (Lists.among ih)

/-- A visit meets the nodes of a statement in the order in which a node comes before those below it.
-/
theorem Stmt.lists_visit (s : Stmt) :
    Lists .pre (Meets descend s.at? s.above) (s.visit descend) := by
  rw [Stmt.visit_eq]
  exact Lists.among fun e _ => e.lists_visit descend

end Visit

/-! ### Rebuilding -/

section Hands

variable {m : Type → Type} [Monad m] {α β : Type}

/-- The replacement that keeps every node and does something on the way. -/
def observing (act : Expr → m Unit) (e : Expr) : m Expr := do
  act e
  pure e

/-- The computation does nothing but `act` on the nodes, one after the other, and returns the
tree. -/
def Hands (act : Expr → m Unit) (run : m α) (tree : α) (nodes : List Expr) : Prop :=
  run = (do nodes.forM act; pure tree)

variable [LawfulMonad m] {act : Expr → m Unit} {x : α} {y : β} {xs ys : List Expr}

theorem hands_pure : Hands act (pure x) x [] := by
  simp [Hands]

/-- The observing replacement hands over the node itself. -/
theorem hands_observing (e : Expr) : Hands act (observing act e) e [e] := by
  simp [Hands, observing]

/-- What two computations hand over is handed over in order. -/
theorem Hands.bind {run : m α} {next : α → m β} (h : Hands act run x xs)
    (h' : Hands act (next x) y ys) : Hands act (run >>= next) y (xs ++ ys) := by
  unfold Hands at *
  simp [h, h']

theorem Hands.map {run : m α} (f : α → β) (h : Hands act run x xs) :
    Hands act (run >>= fun a => pure (f a)) (f x) xs := by
  unfold Hands at *
  simp [h]

end Hands

section Rebuild

variable {m : Type → Type} [Monad m] {act : Expr → m Unit} {deep : Bool} {f : Expr → m Expr}
  {calls : Expr → List Expr}

/-- Rebuilding any of the expressions hands over what `calls` says. -/
def HandsEach (act : Expr → m Unit) (deep : Bool) (f : Expr → m Expr)
    (calls : Expr → List Expr) (es : List Expr) : Prop :=
  ∀ e ∈ es, Hands act (e.rebuild deep f) e (calls e)

theorem handsEach_append {es rest : List Expr} :
    HandsEach act deep f calls (es ++ rest) ↔
      HandsEach act deep f calls es ∧ HandsEach act deep f calls rest :=
  List.forall_mem_append

theorem handsEach_cons {e : Expr} {rest : List Expr} :
    HandsEach act deep f calls (e :: rest) ↔
      Hands act (e.rebuild deep f) e (calls e) ∧ HandsEach act deep f calls rest :=
  List.forall_mem_cons

theorem HandsEach.head {e : Expr} {rest : List Expr} (h : HandsEach act deep f calls (e :: rest)) :
    Hands act (e.rebuild deep f) e (calls e) :=
  (handsEach_cons.mp h).1

variable [LawfulMonad m]

/-- Expressions are handed over one after another. -/
theorem Expr.hands_rebuildList : ∀ {es : List Expr}, HandsEach act deep f calls es →
    Hands act (Expr.rebuildList deep f es) es (es.flatMap calls)
  | [], _ => hands_pure
  | e :: rest, h => by
    obtain ⟨he, hrest⟩ := handsEach_cons.mp h
    exact he.bind ((hands_rebuildList hrest).map (e :: ·))

theorem Expr.hands_rebuildOption {e : Option Expr} (h : HandsEach act deep f calls e.toList) :
    Hands act (Expr.rebuildOption deep f e) e (e.toList.flatMap calls) := by
  cases e with
  | none => exact hands_pure
  | some e =>
    rw [Option.toList_some, List.flatMap_singleton]
    exact h.head.map some

/-- The embeds of a template are handed over one after another. -/
theorem Segment.hands_rebuildList : ∀ {segments : List Segment},
    HandsEach act deep f calls (segments.filterMap Segment.embedded?) →
    Hands act (Segment.rebuildList deep f segments) segments
      ((segments.filterMap Segment.embedded?).flatMap calls)
  | [], _ => hands_pure
  | .text value :: rest, h => by
    have hrest : HandsEach act deep f calls (rest.filterMap Segment.embedded?) := h
    exact (hands_rebuildList hrest).map (Segment.text value :: ·)
  | .embed value verb span :: rest, h => by
    obtain ⟨hvalue, hrest⟩ := handsEach_cons.mp h
    exact hvalue.bind ((hands_rebuildList hrest).map (Segment.embed value verb span :: ·))

/-- Keys and values are handed over one after another. -/
theorem Element.hands_rebuildList : ∀ {elements : List Element},
    HandsEach act deep f calls (elements.flatMap Element.parts) →
    Hands act (Element.rebuildList deep f elements) elements
      ((elements.flatMap Element.parts).flatMap calls)
  | [], _ => hands_pure
  | ⟨key, value⟩ :: rest, h => by
    rw [List.flatMap_cons, Element.parts] at h ⊢
    obtain ⟨helement, hrest⟩ := handsEach_append.mp h
    obtain ⟨hkey, hvalue⟩ := handsEach_append.mp helement
    rw [List.flatMap_append, List.flatMap_append, List.flatMap_singleton, List.append_assoc]
    exact (Expr.hands_rebuildOption hkey).bind
      (hvalue.head.bind ((hands_rebuildList hrest).map (Element.mk key value :: ·)))

mutual
/-- The roots of a block are handed over one after another, by recursion on the tree. -/
theorem Block.hands_rebuild : ∀ block : Block, HandsEach act deep f calls block.roots →
    Hands act (block.rebuild deep f) block (block.roots.flatMap calls)
  | ⟨stmts, span⟩, h => (Stmt.hands_rebuildList stmts h).map (Block.mk · span)

theorem Stmt.hands_rebuildList : ∀ stmts : List Stmt,
    HandsEach act deep f calls (Stmt.rootsList stmts) →
    Hands act (Stmt.rebuildList deep f stmts) stmts
      ((Stmt.rootsList stmts).flatMap calls)
  | [], _ => hands_pure
  | stmt :: rest, h => by
    obtain ⟨hstmt, hrest⟩ := handsEach_append.mp h
    rw [Stmt.rootsList, List.flatMap_append]
    exact (Stmt.hands_rebuild stmt hstmt).bind
      ((Stmt.hands_rebuildList rest hrest).map (stmt :: ·))

/-- Rebuilding a statement hands over what its roots hand over, one after the other. -/
theorem Stmt.hands_rebuild : ∀ stmt : Stmt, HandsEach act deep f calls stmt.roots →
    Hands act (stmt.rebuild deep f) stmt (stmt.roots.flatMap calls)
  | .var names ty values span, h => by
    rw [Stmt.roots] at h ⊢
    exact (Expr.hands_rebuildList h).map (Stmt.var names ty · span)
  | .assign targets op values span, h => by
    obtain ⟨htargets, hvalues⟩ := handsEach_append.mp h
    rw [Stmt.roots, List.flatMap_append]
    exact (Expr.hands_rebuildList htargets).bind
      ((Expr.hands_rebuildList hvalues).map (Stmt.assign targets op · span))
  | .expr value, h => by
    rw [Stmt.roots, List.flatMap_singleton]
    exact h.head.map Stmt.expr
  | .ret values span, h => by
    rw [Stmt.roots] at h ⊢
    exact (Expr.hands_rebuildList h).map (Stmt.ret · span)
  | .cond branch, h => (If.hands_rebuild branch h).map Stmt.cond
  | .loop clause body span, h => by
    obtain ⟨hclause, hbody⟩ := handsEach_append.mp h
    rw [Stmt.roots, List.flatMap_append]
    exact (Clause.hands_rebuild clause hclause).bind
      ((Block.hands_rebuild body hbody).map (Stmt.loop clause · span))
  | .throw value span, h => by
    rw [Stmt.roots, List.flatMap_singleton]
    exact h.head.map (Stmt.throw · span)
  | .bind names call span, h => by
    rw [Stmt.roots, List.flatMap_singleton]
    exact h.head.map (Stmt.bind names · span)
  | .go call span, h => by
    rw [Stmt.roots, List.flatMap_singleton]
    exact h.head.map (Stmt.go · span)
  | .defer call span, h => by
    rw [Stmt.roots, List.flatMap_singleton]
    exact h.head.map (Stmt.defer · span)
  | .breakLoop _, _ => hands_pure
  | .continueLoop _, _ => hands_pure
  | .block body, h => (Block.hands_rebuild body h).map Stmt.block

theorem Stmt.hands_rebuildOption : ∀ stmt : Option Stmt,
    HandsEach act deep f calls (Stmt.rootsOption stmt) →
    Hands act (Stmt.rebuildOption deep f stmt) stmt
      ((Stmt.rootsOption stmt).flatMap calls)
  | none, _ => hands_pure
  | some stmt, h => (Stmt.hands_rebuild stmt h).map some

theorem If.hands_rebuild : ∀ branch : If, HandsEach act deep f calls branch.roots →
    Hands act (branch.rebuild deep f) branch (branch.roots.flatMap calls)
  | ⟨condition, thenBlock, otherwise, span⟩, h => by
    obtain ⟨hcondition, hblocks⟩ := handsEach_cons.mp h
    obtain ⟨hthen, hotherwise⟩ := handsEach_append.mp hblocks
    rw [If.roots, List.flatMap_cons, List.flatMap_append]
    exact hcondition.bind ((Block.hands_rebuild thenBlock hthen).bind
      ((Else.hands_rebuild otherwise hotherwise).map (If.mk condition thenBlock · span)))

theorem Else.hands_rebuild : ∀ otherwise : Else, HandsEach act deep f calls otherwise.roots →
    Hands act (otherwise.rebuild deep f) otherwise (otherwise.roots.flatMap calls)
  | .none, _ => hands_pure
  | .block body, h => (Block.hands_rebuild body h).map Else.block
  | .elseIf branch, h => (If.hands_rebuild branch h).map Else.elseIf

theorem Clause.hands_rebuild : ∀ clause : Clause, HandsEach act deep f calls clause.roots →
    Hands act (clause.rebuild deep f) clause (clause.roots.flatMap calls)
  | .infinite, _ => hands_pure
  | .condition test, h => by
    rw [Clause.roots, List.flatMap_singleton]
    exact h.head.map Clause.condition
  | .three first condition post, h => by
    obtain ⟨hinit, hpost⟩ := handsEach_append.mp h
    obtain ⟨hfirst, hcondition⟩ := handsEach_append.mp hinit
    rw [Clause.roots, List.flatMap_append, List.flatMap_append, List.append_assoc]
    exact (Stmt.hands_rebuildOption first hfirst).bind ((Expr.hands_rebuildOption hcondition).bind
      ((Stmt.hands_rebuildOption post hpost).map (Clause.three first condition ·)))
  | .range key value define source, h => by
    rw [Clause.roots, List.flatMap_singleton]
    exact h.head.map (Clause.range key value define ·)
end

/-- Rebuilding goes into a node: it goes into a function literal only if `deep` is set. -/
def Expr.isEntered (deep : Bool) (e : Expr) : Bool := e.outsideFuncs || deep

/-- Rebuilding goes into every node but a function literal. -/
theorem Expr.isEntered_of_not_isFunc {e : Expr} (h : e.isFunc = false) :
    e.isEntered deep = true := by
  simp [isEntered, outsideFuncs, h]

variable {own : List Expr}

/-- Rebuilding a node with operands hands over what they hand over, and then the node. -/
theorem Expr.hands_rebuild_parts {e : Expr} (hfunc : e.isFunc = false)
    (h : HandsEach act deep f calls e.parts) (hself : Hands act (f e) e own) :
    Hands act (e.rebuild deep f) e (e.parts.flatMap calls ++ own) := by
  cases e with
  | func => cases hfunc
  | ident name span => exact hself
  | lit value span => exact hself
  | ofType ty span => exact hself
  | call callee args span =>
    obtain ⟨hcallee, hargs⟩ := handsEach_cons.mp h
    rw [parts, List.flatMap_cons, List.append_assoc]
    exact hcallee.bind ((hands_rebuildList hargs).bind hself)
  | template segments span => exact (Segment.hands_rebuildList h).bind hself
  | attempt operand span =>
    rw [parts, List.flatMap_singleton]
    exact h.head.bind hself
  | binary op left right span =>
    obtain ⟨hleft, hright⟩ := handsEach_cons.mp h
    rw [parts, List.flatMap_cons, List.flatMap_singleton, List.append_assoc]
    exact hleft.bind (hright.head.bind hself)
  | unary op operand span =>
    rw [parts, List.flatMap_singleton]
    exact h.head.bind hself
  | selector base field span =>
    rw [parts, List.flatMap_singleton]
    exact h.head.bind hself
  | index base key span =>
    obtain ⟨hbase, hkey⟩ := handsEach_cons.mp h
    rw [parts, List.flatMap_cons, List.flatMap_singleton, List.append_assoc]
    exact hbase.bind (hkey.head.bind hself)
  | composite ty elements span => exact (Element.hands_rebuildList h).bind hself

/-- Rebuilding a node hands over what its children hand over if they are gone into, and then the
node. -/
theorem Expr.hands_rebuild {e : Expr} (h : HandsEach act deep f calls e.children)
    (hself : Hands act (f e) e own) :
    Hands act (e.rebuild deep f) e
      ((if e.isEntered deep then e.children.flatMap calls else []) ++ own) := by
  cases hfunc : e.isFunc with
  | false =>
    rw [children_of_not_isFunc hfunc] at h ⊢
    rw [isEntered_of_not_isFunc hfunc, if_pos rfl]
    exact hands_rebuild_parts hfunc h hself
  | true =>
    cases e with
    | func params returns body span =>
      cases deep with
      | true => exact (Block.hands_rebuild body h).bind hself
      | false => exact hands_pure.bind hself
    | _ => cases hfunc

end Rebuild

/-- Rebuilding hands over the nodes that it can go into, a node after those below it. -/
theorem Expr.exists_hands (deep : Bool) (e : Expr) :
    ∃ nodes, Lists .post (Meets (Expr.isEntered deep) e.at? e.above) nodes ∧
      ∀ (m : Type → Type) [Monad m] [LawfulMonad m] (act : Expr → m Unit),
        Hands act (e.rebuild deep (observing act)) e nodes := by
  induction e using Expr.childInduction with
  | step e ih =>
    -- What the children hand over does not depend on the monad: it is chosen before one is given.
    choose! calls hlists hhands using ih
    exact ⟨_, Lists.node (Lists.among hlists), fun m _ _ act =>
      Expr.hands_rebuild (fun c hc => hhands c hc m act) (hands_observing e)⟩

/-- Rebuilding a statement hands over the nodes in the order in which a node comes after those below
it. -/
theorem Stmt.exists_hands (deep : Bool) (s : Stmt) :
    ∃ nodes, Lists .post (Meets (Expr.isEntered deep) s.at? s.above) nodes ∧
      ∀ (m : Type → Type) [Monad m] [LawfulMonad m] (act : Expr → m Unit),
        Hands act (s.rebuild deep (observing act)) s nodes := by
  choose calls hlists hhands using Expr.exists_hands deep
  exact ⟨_, Lists.among fun e _ => hlists e, fun m _ _ act =>
    s.hands_rebuild fun e _ => hhands e m act⟩

/-! ### Both compared -/

section Compared

variable {at? : Address → Option Expr} {above : Address → List Expr} {nodes : List Expr}

/-- A search through a walk that passes over function literals finds the nodes outside of them. -/
theorem any_isAttempt_iff {order : DepthFirst}
    (h : Lists order (Meets Expr.outsideFuncs at? above) nodes) :
    nodes.any Expr.isAttempt = true ↔
      ∃ p x, at? p = some x ∧ x.isAttempt = true ∧ ∀ a ∈ above p, a.isFunc = false := by
  rw [List.any_eq_true]
  constructor
  · rintro ⟨x, hx, hattempt⟩
    obtain ⟨p, hmeets⟩ := h.mem_iff.mp hx
    obtain ⟨hat, habove⟩ := (meets_iff_of_outside fun _ => rfl).mp hmeets
    exact ⟨p, x, hat, hattempt, habove⟩
  · rintro ⟨p, x, hat, hattempt, habove⟩
    exact ⟨x, h.mem_iff.mpr ⟨p, (meets_iff_of_outside fun _ => rfl).mpr ⟨hat, habove⟩⟩, hattempt⟩

/-- A visit that goes everywhere meets each node of an expression once. -/
theorem Expr.lists_visit_all (e : Expr) :
    Lists .pre (fun p x => e.at? p = some x) (e.visit fun _ => true) :=
  (e.lists_visit _).congr fun _ _ => meets_iff_of_descends fun _ => rfl

/-- A visit that goes everywhere meets each node of a statement once. -/
theorem Stmt.lists_visit_all (s : Stmt) :
    Lists .pre (fun p x => s.at? p = some x) (s.visit fun _ => true) :=
  (s.lists_visit _).congr fun _ _ => meets_iff_of_descends fun _ => rfl

/-- Deep rebuilding goes into every node. -/
theorem lists_of_deep (h : Lists .post (Meets (Expr.isEntered true) at? above) nodes) :
    Lists .post (fun p x => at? p = some x) nodes :=
  h.congr fun _ _ => meets_iff_of_descends fun e => Bool.or_true e.outsideFuncs

/-- Shallow rebuilding goes into every node but function literals. -/
theorem lists_of_shallow (h : Lists .post (Meets (Expr.isEntered false) at? above) nodes) :
    Lists .post (fun p x => at? p = some x ∧ ∀ a ∈ above p, a.isFunc = false) nodes :=
  h.congr fun _ _ => meets_iff_of_outside fun e => Bool.or_false e.outsideFuncs

end Compared

/-- Of every expression and every statement, a walk that descends into all nodes meets each of them
once, a node before those below it. Rebuilding it with a replacement that keeps every node gives the
same tree and hands over the same nodes, each after those below it and with the children in the same
order; shallow rebuilding leaves out what is inside function literals. A `try` is found exactly if
one stands outside of them. -/
theorem visit_rebuild_agree :
    (∀ e : Expr,
      Lists .pre (fun p x => e.at? p = some x) (e.visit fun _ => true) ∧
      (∃ nodes, Lists .post (fun p x => e.at? p = some x) nodes ∧
        nodes.Perm (e.visit fun _ => true) ∧
        ∀ (m : Type → Type) [Monad m] [LawfulMonad m] (act : Expr → m Unit),
          e.rebuild true (observing act) = (do nodes.forM act; pure e)) ∧
      (∃ nodes, Lists .post
          (fun p x => e.at? p = some x ∧ ∀ a ∈ e.above p, a.isFunc = false) nodes ∧
        ∀ (m : Type → Type) [Monad m] [LawfulMonad m] (act : Expr → m Unit),
          e.rebuild false (observing act) = (do nodes.forM act; pure e)) ∧
      (e.containsAttempt = true ↔ ∃ p x, e.at? p = some x ∧ x.isAttempt = true ∧
        ∀ a ∈ e.above p, a.isFunc = false)) ∧
    (∀ s : Stmt,
      Lists .pre (fun p x => s.at? p = some x) (s.visit fun _ => true) ∧
      (∃ nodes, Lists .post (fun p x => s.at? p = some x) nodes ∧
        nodes.Perm (s.visit fun _ => true) ∧
        ∀ (m : Type → Type) [Monad m] [LawfulMonad m] (act : Expr → m Unit),
          s.rebuild true (observing act) = (do nodes.forM act; pure s)) ∧
      (s.containsAttempt = true ↔ ∃ p x, s.at? p = some x ∧ x.isAttempt = true ∧
        ∀ a ∈ s.above p, a.isFunc = false)) := by
  constructor
  · intro e
    obtain ⟨deep, hdeep, hrebuild⟩ := e.exists_hands true
    obtain ⟨shallow, hshallow, hrebuild'⟩ := e.exists_hands false
    have hall := lists_of_deep hdeep
    exact ⟨e.lists_visit_all, ⟨deep, hall, hall.perm e.lists_visit_all, hrebuild⟩,
      ⟨shallow, lists_of_shallow hshallow, hrebuild'⟩,
      any_isAttempt_iff (e.lists_visit Expr.outsideFuncs)⟩
  · intro s
    obtain ⟨deep, hdeep, hrebuild⟩ := s.exists_hands true
    have hall := lists_of_deep hdeep
    exact ⟨s.lists_visit_all, ⟨deep, hall, hall.perm s.lists_visit_all, hrebuild⟩,
      any_isAttempt_iff (s.lists_visit Expr.outsideFuncs)⟩

-- The `try` of `run(func() { try load() })` has an address, but belongs to the literal.
example :
    let attempt : Expr := .attempt (.call (.ident "load" {}) [] {}) {}
    let e : Expr := .call (.ident "run" {}) [.func [] none { stmts := [.expr attempt] } {}] {}
    e.at? [1, 0] = some attempt ∧ e.containsAttempt = false :=
  ⟨rfl, rfl⟩

end Desugar
