import Desugar.Proofs.Tree.Occurrence
import Mathlib.Data.List.Nodup

/-!
# Addresses in a tree

The nodes of a tree are told apart by where they stand, since equal expressions may stand in
several places. An address says which child to take at every step down from the root. The children
of a function literal are the expressions that the statements of its body consist of, so that an
address also leads into literals; a statement has no node of its own and is addressed through
these expressions, its roots.

- `Expr.at?`, `Stmt.at?`: the node at an address; `Expr.above`, `Stmt.above`: the nodes over it.
- `DepthFirst.Before`: the order in which a walk from left to right meets two addresses.
- `Lists`: a list has the nodes of a tree, each once and in such an order.
- `Lists.node` and `Lists.among`: how the lists of a tree are put together from those of its parts.
- `Expr.childInduction`: what passes from the children of a node to the node holds of every
  expression.
-/

namespace Desugar

/-! ### Children and roots -/

mutual
/-- The expressions that the statements of a block consist of, from left to right. -/
def Block.roots (block : Block) : List Expr :=
  match block with
  | ⟨stmts, _⟩ => Stmt.rootsList stmts
termination_by structural block

/-- The roots of a list of statements. -/
def Stmt.rootsList (stmts : List Stmt) : List Expr :=
  match stmts with
  | [] => []
  | stmt :: rest => stmt.roots ++ Stmt.rootsList rest
termination_by structural stmts

/-- The expressions that a statement consists of, those of nested statements included. -/
def Stmt.roots (stmt : Stmt) : List Expr :=
  match stmt with
  | .var _ _ values _ => values
  | .assign targets _ values _ => targets ++ values
  | .expr value => [value]
  | .ret values _ => values
  | .cond branch => branch.roots
  | .loop clause body _ => clause.roots ++ body.roots
  | .throw value _ => [value]
  | .bind _ call _ => [call]
  | .go call _ => [call]
  | .defer call _ => [call]
  | .breakLoop _ => []
  | .continueLoop _ => []
  | .block body => body.roots
termination_by structural stmt

/-- The roots of an optional statement. -/
def Stmt.rootsOption (stmt : Option Stmt) : List Expr :=
  match stmt with
  | none => []
  | some stmt => stmt.roots
termination_by structural stmt

/-- The roots of a conditional. -/
def If.roots (branch : If) : List Expr :=
  match branch with
  | ⟨condition, thenBlock, otherwise, _⟩ => condition :: (thenBlock.roots ++ otherwise.roots)
termination_by structural branch

/-- The roots of what follows a failed condition. -/
def Else.roots (otherwise : Else) : List Expr :=
  match otherwise with
  | .none => []
  | .block body => body.roots
  | .elseIf branch => branch.roots
termination_by structural otherwise

/-- The roots of a loop header. -/
def Clause.roots (clause : Clause) : List Expr :=
  match clause with
  | .infinite => []
  | .condition test => [test]
  | .three first condition post =>
    Stmt.rootsOption first ++ condition.toList ++ Stmt.rootsOption post
  | .range _ _ _ source => [source]
termination_by structural clause
end

/-- The expressions right below a node, from left to right: its operands, or the roots of the body
of a function literal. -/
def Expr.children : Expr → List Expr
  | .func _ _ body _ => body.roots
  | e => e.parts

/-- The children of a node other than a function literal are its operands. -/
theorem Expr.children_of_not_isFunc {e : Expr} (h : e.isFunc = false) : e.children = e.parts := by
  cases e with
  | func => cases h
  | _ => rfl

/-- The property passes from the children of a node to the node. -/
abbrev Expr.PassesUp (motive : Expr → Prop) : Prop :=
  ∀ e : Expr, (∀ c ∈ e.children, motive c) → motive e

section Induction

variable {motive : Expr → Prop}

mutual
/-- What passes from the children of a node to the node holds of every expression. -/
theorem Expr.childInduction (step : ∀ e : Expr, (∀ c ∈ e.children, motive c) → motive e) :
    ∀ e : Expr, motive e
  | .ident _ _ => step _ (List.forall_mem_nil _)
  | .lit _ _ => step _ (List.forall_mem_nil _)
  | .call callee args _ => step _
    (List.forall_mem_cons.mpr ⟨Expr.childInduction step callee, Expr.childInductionList step args⟩)
  | .template segments _ => step _ (Segment.childInduction step segments)
  | .attempt operand _ => step _ (List.forall_mem_singleton.mpr (Expr.childInduction step operand))
  | .binary _ left right _ => step _ (List.forall_mem_cons.mpr
    ⟨Expr.childInduction step left, List.forall_mem_singleton.mpr (Expr.childInduction step right)⟩)
  | .unary _ operand _ => step _ (List.forall_mem_singleton.mpr (Expr.childInduction step operand))
  | .selector base _ _ => step _ (List.forall_mem_singleton.mpr (Expr.childInduction step base))
  | .index base key _ => step _ (List.forall_mem_cons.mpr
    ⟨Expr.childInduction step base, List.forall_mem_singleton.mpr (Expr.childInduction step key)⟩)
  | .composite _ elements _ => step _ (Element.childInduction step elements)
  | .func _ _ body _ => step _ (Block.childInduction step body)
  | .ofType _ _ => step _ (List.forall_mem_nil _)

/-- The property holds of all trees of a list, and likewise of all other parts of a tree. -/
theorem Expr.childInductionList (step : Expr.PassesUp motive) : ∀ es : List Expr, ∀ c ∈ es, motive c
  | [] => List.forall_mem_nil _
  | e :: rest =>
    List.forall_mem_cons.mpr ⟨Expr.childInduction step e, Expr.childInductionList step rest⟩

theorem Expr.childInductionOption (step : Expr.PassesUp motive) :
    ∀ e : Option Expr, ∀ c ∈ e.toList, motive c
  | none => List.forall_mem_nil _
  | some e => List.forall_mem_singleton.mpr (Expr.childInduction step e)

theorem Segment.childInduction (step : Expr.PassesUp motive) :
    ∀ segments : List Segment, ∀ c ∈ segments.filterMap Segment.embedded?, motive c
  | [] => List.forall_mem_nil _
  | .text _ :: rest => Segment.childInduction step rest
  | .embed value _ _ :: rest =>
    List.forall_mem_cons.mpr ⟨Expr.childInduction step value, Segment.childInduction step rest⟩

theorem Element.childInduction (step : Expr.PassesUp motive) :
    ∀ elements : List Element, ∀ c ∈ elements.flatMap Element.parts, motive c
  | [] => List.forall_mem_nil _
  | ⟨key, value⟩ :: rest => List.forall_mem_append.mpr
    ⟨List.forall_mem_append.mpr ⟨Expr.childInductionOption step key,
      List.forall_mem_singleton.mpr (Expr.childInduction step value)⟩,
      Element.childInduction step rest⟩

theorem Block.childInduction (step : Expr.PassesUp motive) :
    ∀ block : Block, ∀ c ∈ block.roots, motive c
  | ⟨stmts, _⟩ => Stmt.childInductionList step stmts

theorem Stmt.childInductionList (step : Expr.PassesUp motive) :
    ∀ stmts : List Stmt, ∀ c ∈ Stmt.rootsList stmts, motive c
  | [] => List.forall_mem_nil _
  | stmt :: rest =>
    List.forall_mem_append.mpr ⟨Stmt.childInduction step stmt, Stmt.childInductionList step rest⟩

theorem Stmt.childInduction (step : Expr.PassesUp motive) :
    ∀ stmt : Stmt, ∀ c ∈ stmt.roots, motive c
  | .var _ _ values _ => Expr.childInductionList step values
  | .assign targets _ values _ =>
    List.forall_mem_append.mpr
      ⟨Expr.childInductionList step targets, Expr.childInductionList step values⟩
  | .expr value => List.forall_mem_singleton.mpr (Expr.childInduction step value)
  | .ret values _ => Expr.childInductionList step values
  | .cond branch => If.childInduction step branch
  | .loop clause body _ =>
    List.forall_mem_append.mpr ⟨Clause.childInduction step clause, Block.childInduction step body⟩
  | .throw value _ => List.forall_mem_singleton.mpr (Expr.childInduction step value)
  | .bind _ call _ => List.forall_mem_singleton.mpr (Expr.childInduction step call)
  | .go call _ => List.forall_mem_singleton.mpr (Expr.childInduction step call)
  | .defer call _ => List.forall_mem_singleton.mpr (Expr.childInduction step call)
  | .breakLoop _ => List.forall_mem_nil _
  | .continueLoop _ => List.forall_mem_nil _
  | .block body => Block.childInduction step body

theorem Stmt.childInductionOption (step : Expr.PassesUp motive) :
    ∀ stmt : Option Stmt, ∀ c ∈ Stmt.rootsOption stmt, motive c
  | none => List.forall_mem_nil _
  | some stmt => Stmt.childInduction step stmt

theorem If.childInduction (step : Expr.PassesUp motive) :
    ∀ branch : If, ∀ c ∈ branch.roots, motive c
  | ⟨condition, thenBlock, otherwise, _⟩ => List.forall_mem_cons.mpr
    ⟨Expr.childInduction step condition, List.forall_mem_append.mpr
      ⟨Block.childInduction step thenBlock, Else.childInduction step otherwise⟩⟩

theorem Else.childInduction (step : Expr.PassesUp motive) :
    ∀ otherwise : Else, ∀ c ∈ otherwise.roots, motive c
  | .none => List.forall_mem_nil _
  | .block body => Block.childInduction step body
  | .elseIf branch => If.childInduction step branch

theorem Clause.childInduction (step : Expr.PassesUp motive) :
    ∀ clause : Clause, ∀ c ∈ clause.roots, motive c
  | .infinite => List.forall_mem_nil _
  | .condition test => List.forall_mem_singleton.mpr (Expr.childInduction step test)
  | .three first condition post => List.forall_mem_append.mpr
    ⟨List.forall_mem_append.mpr ⟨Stmt.childInductionOption step first,
      Expr.childInductionOption step condition⟩, Stmt.childInductionOption step post⟩
  | .range _ _ _ source => List.forall_mem_singleton.mpr (Expr.childInduction step source)
end

end Induction

/-! ### The node at an address -/

/-- Which child to take at every step from the root of a tree. -/
abbrev Address := List Nat

/-- The node at an address, if the address stays inside the expression. -/
def Expr.at? (e : Expr) : Address → Option Expr
  | [] => some e
  | i :: p => e.children[i]?.bind fun child => child.at? p

/-- The nodes on the way from the root to an address, the node at the address excepted. -/
def Expr.above (e : Expr) : Address → List Expr
  | [] => []
  | i :: p => e :: e.children[i]?.elim [] fun child => child.above p

/-- The node at an address, which first chooses one of several trees. -/
def Expr.atAmong? (es : List Expr) : Address → Option Expr
  | [] => none
  | i :: p => es[i]?.bind fun e => e.at? p

/-- The nodes above an address, which first chooses one of several trees. -/
def Expr.aboveAmong (es : List Expr) : Address → List Expr
  | [] => []
  | i :: p => es[i]?.elim [] fun e => e.above p

/-- The node at an address in a statement. -/
def Stmt.at? (s : Stmt) : Address → Option Expr := Expr.atAmong? s.roots

/-- The nodes above an address in a statement. -/
def Stmt.above (s : Stmt) : Address → List Expr := Expr.aboveAmong s.roots

section Meets

variable {descend : Expr → Bool} {at? : Address → Option Expr} {above : Address → List Expr}
  {e x : Expr} {es : List Expr} {i : Nat} {p : Address}

/-- A walk that leaves out what is below the nodes that it does not descend into meets `x` at the
address `p`. -/
def Meets (descend : Expr → Bool) (at? : Address → Option Expr) (above : Address → List Expr)
    (p : Address) (x : Expr) : Prop :=
  at? p = some x ∧ ∀ a ∈ above p, descend a = true

/-- A walk that descends into every node meets all of them. -/
theorem meets_iff_of_descends (h : ∀ e, descend e = true) :
    Meets descend at? above p x ↔ at? p = some x := by
  simp [Meets, h]

/-- A walk that descends into all but function literals meets what is inside none of them. -/
theorem meets_iff_of_outside (h : ∀ e, descend e = !e.isFunc) :
    Meets descend at? above p x ↔ at? p = some x ∧ ∀ a ∈ above p, a.isFunc = false := by
  simp [Meets, h]

namespace Expr

theorem not_meets_among_nil : ¬ Meets descend (atAmong? es) (aboveAmong es) [] x := by
  simp [Meets, atAmong?]

/-- To meet a node among several trees is to choose one of them and to meet the node there. -/
theorem meets_among_cons :
    Meets descend (atAmong? es) (aboveAmong es) (i :: p) x ↔
      ∃ e, es[i]? = some e ∧ Meets descend e.at? e.above p x := by
  rcases h : es[i]? with _ | e <;> simp [Meets, atAmong?, aboveAmong, h]

/-- The index 0 chooses the first tree. -/
theorem meets_among_zero {rest : List Expr} :
    Meets descend (atAmong? (e :: rest)) (aboveAmong (e :: rest)) (0 :: p) x ↔
      Meets descend e.at? e.above p x := by
  simp [meets_among_cons]

/-- Any other index chooses one of the trees to the right. -/
theorem meets_among_succ {rest : List Expr} :
    Meets descend (atAmong? (e :: rest)) (aboveAmong (e :: rest)) (p.modifyHead (· + 1)) x ↔
      Meets descend (atAmong? rest) (aboveAmong rest) p x := by
  cases p with
  | nil => simp [not_meets_among_nil]
  | cons i p => simp [meets_among_cons]

/-- A walk meets the root, and what it meets among the children if it descends into the root. -/
theorem meets_iff :
    Meets descend e.at? e.above p x ↔
      (p = [] ∧ x = e) ∨
        (descend e = true ∧ Meets descend (atAmong? e.children) (aboveAmong e.children) p x) := by
  cases p with
  | nil => simp [Meets, at?, above, atAmong?, eq_comm (a := e)]
  | cons i p =>
    rw [meets_among_cons]
    rcases h : e.children[i]? with _ | child <;> simp [Meets, at?, above, h]
    tauto

end Expr

end Meets

/-! ### Depth-first orders -/

/-- When a walk handles a node: before the nodes below it, or after them. -/
inductive DepthFirst where
  | pre
  | post

namespace DepthFirst

/-- A walk handles the node at one address before that at another. Siblings and all that is below
them are handled from left to right. -/
def Before (order : DepthFirst) : Address → Address → Prop
  | [], [] => False
  | [], _ :: _ => order = .pre
  | _ :: _, [] => order = .post
  | i :: p, j :: q => i < j ∨ i = j ∧ order.Before p q

/-- Puts a node to what is handled below it. -/
def place {α : Type} (order : DepthFirst) (node : α) (below : List α) : List α :=
  match order with
  | .pre => node :: below
  | .post => below ++ [node]

variable {order : DepthFirst} {p q : Address}

section Place

variable {α : Type} {node : α} {below : List α}

theorem map_place {β : Type} (f : α → β) :
    (order.place node below).map f = order.place (f node) (below.map f) := by
  cases order <;> simp [place]

theorem mem_place {a : α} : a ∈ order.place node below ↔ a = node ∨ a ∈ below := by
  cases order <;> simp [place, or_comm]

end Place

/-- A node is not handled before itself. -/
theorem not_before_self : ∀ p : Address, ¬ order.Before p p
  | [] => id
  | i :: p => by
    rintro (h | ⟨-, h⟩)
    · exact Nat.lt_irrefl i h
    · exact not_before_self p h

/-- Below one child, the order is that of the child. -/
theorem before_cons_self {i : Nat} : order.Before (i :: p) (i :: q) ↔ order.Before p q := by
  simp [Before]

/-- The root of a tree is handled on the side of all that is below it where it is placed. -/
theorem pairwise_place {e : Expr} {below : List (Address × Expr)} (hne : ∀ b ∈ below, b.1 ≠ [])
    (h : below.Pairwise fun a b => order.Before a.1 b.1) :
    (order.place ([], e) below).Pairwise fun a b => order.Before a.1 b.1 := by
  cases order with
  | pre =>
    refine List.pairwise_cons.mpr ⟨fun b hb => ?_, h⟩
    obtain ⟨i, p, hp⟩ := List.exists_cons_of_ne_nil (hne b hb)
    rw [hp]
    rfl
  | post =>
    refine List.pairwise_append.mpr ⟨h, List.pairwise_singleton _ _, fun b hb root hroot => ?_⟩
    obtain rfl := List.mem_singleton.mp hroot
    obtain ⟨i, p, hp⟩ := List.exists_cons_of_ne_nil (hne b hb)
    rw [hp]
    rfl

/-- Moving all trees one place to the right keeps their order. -/
theorem before_modifyHead_succ :
    order.Before (p.modifyHead (· + 1)) (q.modifyHead (· + 1)) ↔ order.Before p q := by
  cases p <;> cases q <;> simp [Before]

section Beside

variable {first later : List (Address × Expr)}

/-- The entries of a tree and of the trees to its right, with addresses in all of them: the tree
gets the index 0, and those to its right move by one place. -/
def beside (first later : List (Address × Expr)) : List (Address × Expr) :=
  first.map (Prod.map (0 :: ·) id) ++ later.map (Prod.map (List.modifyHead (· + 1)) id)

theorem map_snd_beside :
    (beside first later).map Prod.snd = first.map Prod.snd ++ later.map Prod.snd := by
  simp [beside, Function.comp_def]

/-- The entries of several trees are those of the first and those of the trees to the right. -/
theorem mem_beside {x : Expr} :
    (p, x) ∈ beside first later ↔
      (∃ q, 0 :: q = p ∧ (q, x) ∈ first) ∨
        (∃ q, List.modifyHead (· + 1) q = p ∧ (q, x) ∈ later) := by
  simp [beside, and_comm]

/-- The entries of several trees are in order if those of each tree are. -/
theorem pairwise_beside (hne : ∀ b ∈ later, b.1 ≠ [])
    (h : first.Pairwise fun a b => order.Before a.1 b.1)
    (h' : later.Pairwise fun a b => order.Before a.1 b.1) :
    (beside first later).Pairwise fun a b => order.Before a.1 b.1 := by
  refine List.pairwise_append.mpr ⟨List.pairwise_map.mpr (h.imp before_cons_self.mpr),
    List.pairwise_map.mpr (h'.imp before_modifyHead_succ.mpr), fun a ha b hb => ?_⟩
  obtain ⟨a, -, rfl⟩ := List.mem_map.mp ha
  obtain ⟨b, hlater, rfl⟩ := List.mem_map.mp hb
  obtain ⟨j, q, hq⟩ := List.exists_cons_of_ne_nil (hne b hlater)
  show order.Before (0 :: a.1) (b.1.modifyHead (· + 1))
  rw [hq]
  exact .inl j.succ_pos

end Beside

end DepthFirst

/-- The list has exactly the nodes that `meets` relates to an address, in a depth-first order of
their addresses. So each node is listed once for every place that it stands in. -/
def Lists (order : DepthFirst) (meets : Address → Expr → Prop) (nodes : List Expr) : Prop :=
  ∃ entries : List (Address × Expr),
    entries.map Prod.snd = nodes ∧
    entries.Pairwise (fun a b => order.Before a.1 b.1) ∧
    ∀ p x, (p, x) ∈ entries ↔ meets p x

namespace Lists

variable {order : DepthFirst} {meets : Address → Expr → Prop} {nodes : List Expr} {x : Expr}

theorem congr {meets' : Address → Expr → Prop} (h : Lists order meets nodes)
    (heq : ∀ p x, meets p x ↔ meets' p x) : Lists order meets' nodes := by
  obtain ⟨entries, hnodes, hsorted, hmem⟩ := h
  exact ⟨entries, hnodes, hsorted, fun p x => (hmem p x).trans (heq p x)⟩

/-- The listed nodes are those that are met somewhere. -/
theorem mem_iff (h : Lists order meets nodes) : x ∈ nodes ↔ ∃ p, meets p x := by
  obtain ⟨entries, rfl, -, hmem⟩ := h
  simp [← hmem]

/-- What is handled in order is handled once. -/
theorem nodup_of_pairwise_before {entries : List (Address × Expr)}
    (h : entries.Pairwise fun a b => order.Before a.1 b.1) : entries.Nodup := by
  refine List.Pairwise.imp ?_ h
  rintro a b hbefore rfl
  exact DepthFirst.not_before_self a.1 hbefore

/-- Two walks that meet the same nodes list the same nodes, whatever their orders. -/
theorem perm {order' : DepthFirst} {nodes' : List Expr} (h : Lists order meets nodes)
    (h' : Lists order' meets nodes') : nodes.Perm nodes' := by
  obtain ⟨entries, rfl, hsorted, hmem⟩ := h
  obtain ⟨entries', rfl, hsorted', hmem'⟩ := h'
  have hnodup := nodup_of_pairwise_before hsorted
  have hnodup' := nodup_of_pairwise_before hsorted'
  refine List.Perm.map _ ((List.perm_ext_iff_of_nodup hnodup hnodup').mpr fun entry => ?_)
  exact (hmem entry.1 entry.2).trans (hmem' entry.1 entry.2).symm

variable {descend : Expr → Bool} {e : Expr} {es : List Expr}

/-- A node is put to the list of what is below it. -/
theorem node {below : List Expr}
    (h : Lists order (Meets descend (Expr.atAmong? e.children) (Expr.aboveAmong e.children))
      below) :
    Lists order (Meets descend e.at? e.above)
      (order.place e (if descend e then below else [])) := by
  obtain ⟨entries, rfl, hsorted, hmem⟩ := h
  refine ⟨order.place ([], e) (if descend e then entries else []), ?_,
    DepthFirst.pairwise_place ?_ ?_, fun p x => ?_⟩
  · rw [DepthFirst.map_place, apply_ite (List.map Prod.snd), List.map_nil]
  · rintro ⟨p, x⟩ hentry rfl
    have hx : ([], x) ∈ entries := by
      split at hentry
      · exact hentry
      · exact absurd hentry List.not_mem_nil
    exact Expr.not_meets_among_nil ((hmem [] x).mp hx)
  · split
    · exact hsorted
    · exact List.Pairwise.nil
  · rw [DepthFirst.mem_place, Expr.meets_iff, Prod.mk.injEq, ← hmem]
    split <;> simp [*]

/-- Trees side by side are listed one after the other. -/
theorem among {walk : Expr → List Expr}
    (h : ∀ e ∈ es, Lists order (Meets descend e.at? e.above) (walk e)) :
    Lists order (Meets descend (Expr.atAmong? es) (Expr.aboveAmong es)) (es.flatMap walk) := by
  induction es with
  | nil =>
    refine ⟨[], rfl, List.Pairwise.nil, fun p x => ?_⟩
    cases p with
    | nil => simp [Expr.not_meets_among_nil]
    | cons i p => simp [Expr.meets_among_cons]
  | cons e rest ih =>
    obtain ⟨hfirst, hrest⟩ := List.forall_mem_cons.mp h
    obtain ⟨first, hnodes, hsorted, hmem⟩ := hfirst
    obtain ⟨later, hnodes', hsorted', hmem'⟩ := ih hrest
    have hne : ∀ b ∈ later, b.1 ≠ [] := by
      rintro ⟨q, y⟩ hy rfl
      exact Expr.not_meets_among_nil ((hmem' [] y).mp hy)
    refine ⟨DepthFirst.beside first later, ?_, DepthFirst.pairwise_beside hne hsorted hsorted',
      fun p x => ?_⟩
    · rw [DepthFirst.map_snd_beside, hnodes, hnodes', List.flatMap_cons]
    rw [DepthFirst.mem_beside]
    constructor
    · rintro (⟨q, rfl, hx⟩ | ⟨q, rfl, hx⟩)
      · exact Expr.meets_among_zero.mpr ((hmem q x).mp hx)
      · exact Expr.meets_among_succ.mpr ((hmem' q x).mp hx)
    · intro hx
      rcases p with _ | ⟨_ | i, p⟩
      · exact absurd hx Expr.not_meets_among_nil
      · exact .inl ⟨p, rfl, (hmem p x).mpr (Expr.meets_among_zero.mp hx)⟩
      · have hlater := Expr.meets_among_succ (p := i :: p) |>.mp hx
        exact .inr ⟨i :: p, rfl, (hmem' (i :: p) x).mpr hlater⟩

end Lists

end Desugar
