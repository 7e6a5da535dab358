import Mathlib.Logic.Relation
import Desugar.ValueTypes
import Desugar.Proofs.Tree.Nodes
import Desugar.Proofs.Tree.Occurrence

/-!
# Nil that flows into a parameter is reported

The check follows a body along two walks: one over its statements, which goes on into the blocks
inside them, and one over the expressions of each statement, which comes back to statements at
function literals. Together they reach every expression of the body, except in two places: the
condition of an `else if` and the post statement of a loop.

- `Node.checked` are the nodes directly inside a node that the walks go on to, and `Stmt.unchecked`
  those that they leave out.
- `Block.Reaches`: a node of a body is reached. `Block.covered` says that every other node stands in
  a part that is left out.
- `NilFlow.faults_subset_of_reaches`: the faults of a reached node are found.
- `lowerTypes_reports_nil`: what follows for the arguments of calls.
-/

namespace Desugar

open Relation (ReflTransGen)

/-! ## Parts -/

/-- The statements of the blocks that follow a failed condition. -/
def Else.stmts : Else → List Stmt
  | .none => []
  | .block body => body.stmts
  | .elseIf ⟨_, thenBlock, otherwise, _⟩ => thenBlock.stmts ++ otherwise.stmts

/-- The conditions of the `else if`s that follow a failed condition. -/
def Else.conditions : Else → List Expr
  | .none | .block _ => []
  | .elseIf ⟨condition, _, otherwise, _⟩ => condition :: otherwise.conditions

/-- The nodes directly inside a loop header, except the post statement. -/
def Clause.checked : Clause → List Node
  | .infinite => []
  | .condition test => [.expr test]
  | .three first test _ => first.toList.map .stmt ++ test.toList.map .expr
  | .range _ _ _ source => [.expr source]

/-- The post statement of a loop header. -/
def Clause.post : Clause → List Stmt
  | .three _ _ post => post.toList
  | _ => []

/-- The nodes directly inside a statement, except those that are left out. -/
def Stmt.checked : Stmt → List Node
  | .var _ _ values _ => values.map .expr
  | .assign targets _ values _ => targets.map .expr ++ values.map .expr
  | .expr value => [.expr value]
  | .ret values _ => values.map .expr
  | .cond ⟨condition, thenBlock, otherwise, _⟩ =>
    .expr condition :: (thenBlock.stmts.map .stmt ++ otherwise.stmts.map .stmt)
  | .loop clause body _ => clause.checked ++ body.stmts.map .stmt
  | .throw value _ => [.expr value]
  | .bind _ call _ => [.expr call]
  | .go call _ => [.expr call]
  | .defer call _ => [.expr call]
  | .breakLoop _ | .continueLoop _ => []
  | .block body => body.stmts.map .stmt

/-- The nodes directly inside a statement that are left out: the conditions of `else if`s and the
post statement of a loop. -/
def Stmt.unchecked : Stmt → List Node
  | .cond ⟨_, _, otherwise, _⟩ => otherwise.conditions.map .expr
  | .loop clause _ _ => clause.post.map .stmt
  | _ => []

namespace Node

/-- The nodes directly inside a node, except those that are left out. -/
def checked : Node → List Node
  | expr (.func _ _ body _) => body.stmts.map stmt
  | expr e => e.parts.map expr
  | stmt s => s.checked

/-- The nodes directly inside a node that are left out. -/
def unchecked : Node → List Node
  | expr _ => []
  | stmt s => s.unchecked

/-- The nodes inside a node, the node itself first. -/
def nodes : Node → List Node
  | expr e => e.nodes
  | stmt s => s.nodes

/-- The second node is the first one or inside it, and no part between them is left out. -/
def Reaches : Node → Node → Prop := ReflTransGen fun node part => part ∈ node.checked

/-- The second node is reached from the first, or stands in a part that is left out of a node which
is reached. -/
def Covers (root node : Node) : Prop :=
  root.Reaches node ∨ ∃ whole, root.Reaches whole ∧ ∃ part ∈ whole.unchecked, node ∈ part.nodes

/-- What a part covers is covered by the whole, if the part is not left out. -/
theorem Covers.head {root part node : Node} (hpart : part ∈ root.checked) (h : part.Covers node) :
    root.Covers node := by
  refine h.imp (.head hpart) ?_
  rintro ⟨whole, hwhole, hunchecked⟩
  exact ⟨whole, .head hpart hwhole, hunchecked⟩

end Node

/-- The node is inside the body, and no part between them is left out. -/
def Block.Reaches (body : Block) (node : Node) : Prop :=
  ∃ stmt ∈ body.stmts, (Node.stmt stmt).Reaches node

/-! ## What is reached and what is left out -/

/-- Each of the nodes is covered by a root or stands in a part that is left out. -/
def Covered (roots unchecked nodes : List Node) : Prop :=
  ∀ node ∈ nodes, (∃ root ∈ roots, root.Covers node) ∨ ∃ part ∈ unchecked, node ∈ part.nodes

namespace Covered

variable {roots roots' unchecked unchecked' nodes nodes' : List Node}

theorem nil : Covered roots unchecked [] := by
  intro node hnode
  cases hnode

theorem mono (h : Covered roots unchecked nodes) (hroots : roots ⊆ roots')
    (hunchecked : unchecked ⊆ unchecked') : Covered roots' unchecked' nodes := by
  intro node hnode
  refine (h node hnode).imp ?_ ?_
  · rintro ⟨root, hroot, hcovers⟩
    exact ⟨root, hroots hroot, hcovers⟩
  · rintro ⟨part, hpart, hnode⟩
    exact ⟨part, hunchecked hpart, hnode⟩

/-- Covered nodes may be put together. -/
theorem append (h : Covered roots unchecked nodes) (h' : Covered roots' unchecked' nodes') :
    Covered (roots ++ roots') (unchecked ++ unchecked') (nodes ++ nodes') := by
  refine List.forall_mem_append.mpr ⟨h.mono ?_ ?_, h'.mono ?_ ?_⟩
  · exact List.subset_append_left _ _
  · exact List.subset_append_left _ _
  · exact List.subset_append_right _ _
  · exact List.subset_append_right _ _

/-- A node covers itself and what its parts cover. -/
theorem node {root : Node} (h : Covered root.checked root.unchecked nodes) :
    Covered [root] [] (root :: nodes) := by
  refine List.forall_mem_cons.mpr ⟨.inl ⟨root, List.mem_cons_self, .inl .refl⟩, ?_⟩
  intro node hnode
  refine .inl ⟨root, List.mem_cons_self, ?_⟩
  rcases h node hnode with ⟨part, hpart, hcovers⟩ | hunchecked
  · exact hcovers.head hpart
  · exact .inr ⟨root, .refl, hunchecked⟩

/-- The nodes of a part that is left out. -/
theorem leftOut (part : Node) : Covered [] [part] part.nodes :=
  fun _ hnode => .inr ⟨part, List.mem_cons_self, hnode⟩

end Covered

mutual
/-- A node inside an expression is reached or stands in a part that is left out, by recursion on the
tree. -/
theorem Expr.covered : ∀ e : Expr, Covered [.expr e] [] e.nodes
  | .ident _ _ => .node .nil
  | .lit _ _ => .node .nil
  | .ofType _ _ => .node .nil
  | .call callee args _ => .node ((Expr.covered callee).append (Expr.coveredList args))
  | .template segments _ => .node (Segment.coveredList segments)
  | .attempt operand _ => .node (Expr.covered operand)
  | .binary _ left right _ => .node ((Expr.covered left).append (Expr.covered right))
  | .unary _ operand _ => .node (Expr.covered operand)
  | .selector base _ _ => .node (Expr.covered base)
  | .index base i _ => .node ((Expr.covered base).append (Expr.covered i))
  | .composite _ elements _ => .node (Element.coveredList elements)
  | .func _ _ body _ => .node (Block.covered body)

theorem Expr.coveredList : ∀ es : List Expr, Covered (es.map .expr) [] (Expr.nodesList es)
  | [] => .nil
  | e :: rest => (Expr.covered e).append (Expr.coveredList rest)

theorem Expr.coveredOption : ∀ e : Option Expr,
    Covered (e.toList.map .expr) [] (Expr.nodesOption e)
  | none => .nil
  | some e => Expr.covered e

theorem Segment.coveredList : ∀ segments : List Segment,
    Covered ((segments.filterMap Segment.embedded?).map .expr) [] (Segment.nodesList segments)
  | [] => .nil
  | .text _ :: rest => Segment.coveredList rest
  | .embed value _ _ :: rest => (Expr.covered value).append (Segment.coveredList rest)

theorem Element.coveredList : ∀ elements : List Element,
    Covered ((elements.flatMap Element.parts).map .expr) [] (Element.nodesList elements)
  | [] => .nil
  | ⟨key, value⟩ :: rest => by
    rw [List.flatMap_cons, List.map_append, Element.parts, List.map_append]
    exact ((Expr.coveredOption key).append (Expr.covered value)).append (Element.coveredList rest)

/-- Every node of a block is reached from one of its statements or stands in a part that is left
out. -/
theorem Block.covered : ∀ block : Block, Covered (block.stmts.map .stmt) [] block.nodes
  | ⟨stmts, _⟩ => Stmt.coveredList stmts

theorem Stmt.coveredList : ∀ stmts : List Stmt, Covered (stmts.map .stmt) [] (Stmt.nodesList stmts)
  | [] => .nil
  | stmt :: rest => (Stmt.covered stmt).append (Stmt.coveredList rest)

theorem Stmt.covered : ∀ stmt : Stmt, Covered [.stmt stmt] [] stmt.nodes
  | .var _ _ values _ => .node (Expr.coveredList values)
  | .assign targets _ values _ =>
    .node ((Expr.coveredList targets).append (Expr.coveredList values))
  | .expr value => .node (Expr.covered value)
  | .ret values _ => .node (Expr.coveredList values)
  | .cond ⟨condition, thenBlock, otherwise, _⟩ =>
    .node (((Expr.covered condition).append (Block.covered thenBlock)).append
      (Else.covered otherwise))
  | .loop clause body _ => by
    have hparts := (Clause.covered clause).append (Block.covered body)
    rw [List.append_nil] at hparts
    exact .node hparts
  | .throw value _ => .node (Expr.covered value)
  | .bind _ call _ => .node (Expr.covered call)
  | .go call _ => .node (Expr.covered call)
  | .defer call _ => .node (Expr.covered call)
  | .breakLoop _ => .node .nil
  | .continueLoop _ => .node .nil
  | .block body => .node (Block.covered body)

theorem Stmt.coveredOption : ∀ stmt : Option Stmt,
    Covered (stmt.toList.map .stmt) [] (Stmt.nodesOption stmt)
  | none => .nil
  | some stmt => Stmt.covered stmt

/-- What follows a failed condition has left out the conditions of its `else if`s. -/
theorem Else.covered : ∀ otherwise : Else,
    Covered (otherwise.stmts.map .stmt) (otherwise.conditions.map .expr) otherwise.nodes
  | .none => .nil
  | .block body => Block.covered body
  | .elseIf ⟨condition, thenBlock, otherwise, _⟩ => by
    rw [Else.stmts, List.map_append]
    exact ((Covered.leftOut (.expr condition)).append (Block.covered thenBlock)).append
      (Else.covered otherwise)

/-- A loop header has left out its post statement. -/
theorem Clause.covered : ∀ clause : Clause,
    Covered clause.checked (clause.post.map .stmt) clause.nodes
  | .infinite => .nil
  | .condition test => Expr.covered test
  | .three first test post => by
    have hpost : Covered [] (post.toList.map .stmt) (Stmt.nodesOption post) := by
      cases post with
      | none => exact .nil
      | some post => exact .leftOut (.stmt post)
    have hparts := ((Stmt.coveredOption first).append (Expr.coveredOption test)).append hpost
    rw [List.append_nil] at hparts
    exact hparts
  | .range _ _ _ source => Expr.covered source
end

/-- A node of a body is reached, or stands in a part that is left out of a statement which is. -/
theorem Block.reaches_or_unchecked (body : Block) {node : Node} (hnode : node ∈ body.nodes) :
    body.Reaches node ∨
      ∃ stmt, body.Reaches (.stmt stmt) ∧ ∃ part ∈ stmt.unchecked, node ∈ part.nodes := by
  rcases body.covered node hnode with ⟨root, hroot, hcovers⟩ | ⟨part, hpart, -⟩
  · obtain ⟨stmt, hstmt, rfl⟩ := List.mem_map.mp hroot
    rcases hcovers with hreaches | ⟨whole, hwhole, part, hpart, hin⟩
    · exact .inl ⟨stmt, hstmt, hreaches⟩
    · cases whole with
      | expr e => cases hpart
      | stmt whole => exact .inr ⟨whole, ⟨stmt, hstmt, hwhole⟩, part, hpart, hin⟩
  · cases hpart

/-! ## The walks -/

namespace NilFlow

variable {scope : Scope} {returns : List Ty}

/-- The faults of a node in a function with the given declared values. -/
def faults (scope : Scope) (returns : List Ty) : Node → List Fault
  | .expr e => checkExpr scope e
  | .stmt s => checkStmt scope returns s

/-- Expressions are checked one by one. -/
theorem checkExprs_eq (es : List Expr) : checkExprs scope es = es.flatMap (checkExpr scope) := by
  induction es with
  | nil => rfl
  | cons e rest ih => rw [checkExprs, ih, List.flatMap_cons]

theorem checkExpr?_eq (e : Option Expr) :
    checkExpr? scope e = e.toList.flatMap (checkExpr scope) := by
  cases e with
  | none => rfl
  | some e => simp [checkExpr?]

/-- The embeds of a template are checked one by one. -/
theorem checkSegments_eq (segments : List Segment) : checkSegments scope segments =
    (segments.filterMap Segment.embedded?).flatMap (checkExpr scope) := by
  induction segments with
  | nil => rfl
  | cons segment rest ih =>
    cases segment with
    | text _ => exact ih
    | embed _ _ _ => simp [checkSegments, ih]

/-- Keys and values are checked one by one. -/
theorem checkElements_eq (elements : List Element) :
    checkElements scope elements = (elements.flatMap Element.parts).flatMap (checkExpr scope) := by
  induction elements with
  | nil => rfl
  | cons element rest ih =>
    obtain ⟨key, value⟩ := element
    simp [checkElements, ih, checkExpr?_eq, Element.parts]

theorem checkStmts_eq (stmts : List Stmt) :
    checkStmts scope returns stmts = stmts.flatMap (checkStmt scope returns) := by
  induction stmts with
  | nil => rfl
  | cons stmt rest ih => rw [checkStmts, ih, List.flatMap_cons]

theorem checkBlock_eq (block : Block) :
    checkBlock scope returns block = block.stmts.flatMap (checkStmt scope returns) := by
  obtain ⟨stmts, span⟩ := block
  exact checkStmts_eq stmts

/-- Of what follows a failed condition, the statements of the blocks are checked, and no condition.
-/
theorem checkElse_eq : ∀ otherwise : Else,
    checkElse scope returns otherwise = otherwise.stmts.flatMap (checkStmt scope returns)
  | .none => rfl
  | .block body => checkBlock_eq body
  | .elseIf ⟨_, thenBlock, otherwise, _⟩ => by
    rw [checkElse, checkBlock_eq, checkElse_eq otherwise, Else.stmts, List.flatMap_append]

theorem flatMap_faults_expr (es : List Expr) :
    (es.map Node.expr).flatMap (faults scope returns) = es.flatMap (checkExpr scope) :=
  List.flatMap_map ..

theorem flatMap_faults_stmt (stmts : List Stmt) :
    (stmts.map Node.stmt).flatMap (faults scope returns) =
      stmts.flatMap (checkStmt scope returns) :=
  List.flatMap_map ..

/-- A loop header is checked without its post statement. -/
theorem checkClause_eq (clause : Clause) :
    checkFirst scope returns clause ++ checkHeader scope clause =
      clause.checked.flatMap (faults scope returns) := by
  cases clause with
  | infinite => rfl
  | condition test => simp [checkFirst, checkHeader, Clause.checked, faults]
  | three first test post =>
    rw [checkHeader, checkExpr?_eq, Clause.checked, List.flatMap_append, flatMap_faults_stmt,
      flatMap_faults_expr]
    cases first with
    | none => rfl
    | some first => simp [checkFirst]
  | range _ _ _ source => simp [checkFirst, checkHeader, Clause.checked, faults]

/-- What is found in the operands of an expression is found in the expression. -/
theorem flatMap_parts_subset (e : Expr) :
    e.parts.flatMap (checkExpr scope) ⊆ checkExpr scope e := by
  cases e with
  | call callee args span =>
    rw [checkExpr, checkExprs_eq, List.append_assoc]
    exact List.subset_append_right _ _
  | template segments span =>
    rw [checkExpr, checkSegments_eq]
    exact List.Subset.refl _
  | composite ty elements span =>
    rw [checkExpr, checkElements_eq]
    exact List.Subset.refl _
  | _ => simp [Expr.parts, checkExpr]

/-- The check of a statement includes the checks of the parts that are not left out. -/
theorem flatMap_checked_subset (stmt : Stmt) :
    stmt.checked.flatMap (faults scope returns) ⊆ checkStmt scope returns stmt := by
  cases stmt with
  | var names ty values span =>
    rw [checkStmt, Stmt.checked, flatMap_faults_expr, checkExprs_eq]
    exact List.subset_append_right _ _
  | assign targets op values span =>
    rw [checkStmt, Stmt.checked, List.flatMap_append, flatMap_faults_expr, flatMap_faults_expr,
      checkExprs_eq, checkExprs_eq, List.append_assoc]
    exact List.subset_append_right _ _
  | ret values span =>
    rw [checkStmt, Stmt.checked, flatMap_faults_expr, checkExprs_eq]
    exact List.subset_append_right _ _
  | cond branch =>
    obtain ⟨condition, thenBlock, otherwise, span⟩ := branch
    rw [checkStmt, Stmt.checked, List.flatMap_cons, List.flatMap_append, flatMap_faults_stmt,
      flatMap_faults_stmt, checkBlock_eq, checkElse_eq]
    exact List.append_subset.mpr ⟨List.subset_append_right _ _, List.subset_append_left _ _⟩
  | loop clause body span =>
    rw [checkStmt, Stmt.checked, List.flatMap_append, flatMap_faults_stmt, ← checkClause_eq,
      checkBlock_eq]
    intro fault
    simp only [List.mem_append]
    rintro ((hfault | hfault) | hfault) <;> simp [hfault]
  | block body =>
    rw [checkStmt, Stmt.checked, flatMap_faults_stmt, checkBlock_eq]
    exact List.Subset.refl _
  | _ => simp [Stmt.checked, faults, checkStmt]

/-- What is found in a part of a node is found in the node. The statements of a function literal
have the return clause of the literal. -/
theorem faults_subset_of_mem_checked {node part : Node} (h : part ∈ node.checked)
    (returns : List Ty) : ∃ inner, faults scope inner part ⊆ faults scope returns node := by
  have hpart {inner : List Ty} (hsubset : node.checked.flatMap (faults scope inner) ⊆
      faults scope returns node) : faults scope inner part ⊆ faults scope returns node :=
    fun fault hfault => hsubset (List.mem_flatMap.mpr ⟨part, h, hfault⟩)
  cases node with
  | stmt s => exact ⟨returns, hpart (flatMap_checked_subset s)⟩
  | expr e =>
    have hoperands :
        (e.parts.map Node.expr).flatMap (faults scope returns) ⊆ checkExpr scope e := by
      rw [flatMap_faults_expr]
      exact flatMap_parts_subset e
    cases e with
    | func params clause body span =>
      refine ⟨literalReturns clause, hpart ?_⟩
      rw [Node.checked, flatMap_faults_stmt, faults, checkExpr, checkBlock_eq]
      exact List.Subset.refl _
    | _ => exact ⟨returns, hpart hoperands⟩

/-- What is found in a reached node is found in the node that it is reached from. -/
theorem faults_subset_of_reaches {root node : Node} (h : root.Reaches node) (returns : List Ty) :
    ∃ inner, faults scope inner node ⊆ faults scope returns root := by
  induction h with
  | refl => exact ⟨returns, List.Subset.refl _⟩
  | tail _ hpart ih =>
    obtain ⟨outer, houter⟩ := ih
    obtain ⟨inner, hinner⟩ := faults_subset_of_mem_checked hpart outer
    exact ⟨inner, fun fault hfault => houter (hinner hfault)⟩

/-- The check of a body includes the check of every node that is reached. -/
theorem faults_subset_checkBlock {body : Block} {node : Node} (h : body.Reaches node)
    (returns : List Ty) : ∃ inner, faults scope inner node ⊆ checkBlock scope returns body := by
  obtain ⟨stmt, hstmt, hreaches⟩ := h
  obtain ⟨inner, hinner⟩ := faults_subset_of_reaches hreaches returns
  refine ⟨inner, fun fault hfault => ?_⟩
  rw [checkBlock_eq]
  exact List.mem_flatMap.mpr ⟨stmt, hstmt, hinner hfault⟩

/-! ## Arguments that may be nil -/

/-- The value of the expression may be nil, as its form shows: it is nil, a name of an option type,
or a call of a function that cannot fail and whose single value is an option or a pointer that may
be nil. -/
inductive ProducesNil (scope : Scope) : Expr → Prop where
  | nil {span} : ProducesNil scope (.lit .nil span)
  | name {name span inner} (hty : scope.types.get? name = some (.option inner)) :
    ProducesNil scope (.ident name span)
  | call {callee args span sig inner} (hsig : scope.resolve? callee = some sig)
    (hresult : sig.isResult = false)
    (hslot : sig.returns.declared = [.option inner] ∨
      sig.returns.declared = [.pointer inner true]) :
    ProducesNil scope (.call callee args span)

/-- A form that may be nil is taken for one. -/
theorem mayBeNil_of_producesNil {e : Expr} (h : ProducesNil scope e) : mayBeNil scope e = true := by
  cases h with
  | nil => rfl
  | name hty => simp [mayBeNil, hty, Ty.isOption]
  | call hsig hresult hslot =>
    rcases hslot with hslot | hslot <;>
      simp [mayBeNil, hsig, Signature.mayReturnNil, hresult, hslot]

/-- The call with the given callee and arguments passes `arg`, which may be nil, as a parameter that
is never nil. -/
def PassesNil (scope : Scope) (callee : Expr) (args : List Expr) (arg : Expr) : Prop :=
  ∃ (sig : Signature) (i : Nat) (inner : Ty), scope.resolve? callee = some sig ∧
    sig.params[i]? = some (.pointer inner false) ∧ args[i]? = some arg ∧ ProducesNil scope arg

/-- An argument that passes nil is reported where it stands. -/
theorem mem_checkArgs {callee arg : Expr} {args : List Expr} (h : PassesNil scope callee args arg) :
    ∃ sink, ⟨.nilFlow sink, arg.span⟩ ∈ checkArgs scope callee args := by
  obtain ⟨sig, i, inner, hsig, hparam, harg, hnil⟩ := h
  refine ⟨.param sig.name, ?_⟩
  have hzip : (Ty.pointer inner false, arg) ∈ sig.params.zip args :=
    List.mem_of_getElem? (List.getElem?_zip_eq_some.mpr ⟨hparam, harg⟩)
  simp only [checkArgs, hsig]
  refine List.mem_flatMap.mpr ⟨_, hzip, ?_⟩
  simp [flow, Ty.isNonNillable, mayBeNil_of_producesNil hnil]

end NilFlow

/-- A step with a fault fails with all its faults. -/
theorem Noted.outcome_of_mem_faults {α : Type} {x : Noted α} {fault : Fault}
    (h : fault ∈ x.notes.faults) : x.outcome = .error x.notes.faults := by
  unfold Noted.outcome
  split
  · rename_i hnone
    rw [hnone] at h
    cases h
  · rfl

namespace NilFlow

/-- The scope that a function of a unit is checked in. -/
def scopeOf (settings : Settings) (program : Program) (f : Function) : Scope :=
  .ofFunction (SignatureTable.ofItems settings.optionPolicy program.items).value f

/-- What is found in a reached node of a function is noted when the types of the unit are
lowered. -/
theorem exists_faults_subset_lowerTypes (settings : Settings) {program : Program} {f : Function}
    (hf : .func f ∈ program.items) {node : Node} (h : f.body.Reaches node) :
    ∃ returns, faults (scopeOf settings program f) returns node ⊆
      (lowerTypes settings program).notes.faults := by
  let table := (SignatureTable.ofItems settings.optionPolicy program.items).value
  obtain ⟨returns, hsubset⟩ := faults_subset_checkBlock h
    (((table.get? f.key).map (·.returns.declared)).getD [])
  refine ⟨returns, fun fault hfault => ?_⟩
  have hsource : fault ∈ program.items.flatMap (Item.sourceFaults table) :=
    List.mem_flatMap.mpr ⟨.func f, hf, hsubset hfault⟩
  exact List.mem_append_right _ (List.mem_append_left _ hsource)

end NilFlow

open NilFlow (PassesNil scopeOf)

/-- **Nil and parameters.** A call anywhere in a function that passes something which may be nil as
a parameter that is never nil is reported at the argument, unless the call stands in the condition
of an `else if` or in the post statement of a loop. -/
theorem lowerTypes_reports_nil (settings : Settings) {program : Program} {f : Function}
    (hf : .func f ∈ program.items) :
    (∀ callee args span, f.body.Reaches (.expr (.call callee args span)) →
      ∀ arg, PassesNil (scopeOf settings program f) callee args arg →
        ∃ faults, (lowerTypes settings program).outcome = .error faults ∧
          ∃ fault ∈ faults, fault.cause.kind = .nilToNonNillable ∧ fault.span = arg.span) ∧
    (∀ node ∈ f.body.nodes, f.body.Reaches node ∨
      ∃ stmt, f.body.Reaches (.stmt stmt) ∧ ∃ part ∈ stmt.unchecked, node ∈ part.nodes) := by
  refine ⟨fun callee args span hreaches arg hpasses => ?_,
    fun node hnode => f.body.reaches_or_unchecked hnode⟩
  obtain ⟨sink, hsink⟩ := NilFlow.mem_checkArgs hpasses
  obtain ⟨returns, hnotes⟩ := NilFlow.exists_faults_subset_lowerTypes settings hf hreaches
  have hnoted : ⟨.nilFlow sink, arg.span⟩ ∈ (lowerTypes settings program).notes.faults := by
    refine hnotes ?_
    rw [NilFlow.faults, NilFlow.checkExpr, List.append_assoc]
    exact List.mem_append_left _ hsink
  exact ⟨_, Noted.outcome_of_mem_faults hnoted, _, hnoted, rfl, rfl⟩

/-- `use(p *!T) bool` -/
def nilTaker : Function where
  name := "use"
  receiver := none
  params := [{ name := "p", ty := .pointer (.named "T") false }]
  returns := some (.named "bool")
  body := .inserted [.ret [.bool true] .nowhere]

/-- `use(nil)`, with the argument at a place. -/
def nilCall (span : Span) : Expr := .apply (.name "use") [.lit .nil span]

/-- `main()` with the given statements. -/
def nilPasser (stmts : List Stmt) : Function where
  name := "main"
  receiver := none
  params := []
  returns := none
  body := .inserted stmts

def nilUnit (stmts : List Stmt) : Program where
  name := "nil"
  package := "main"
  imports := []
  items := [.func nilTaker, .func (nilPasser stmts)]

/-- `if ok { } else { print("\(use(nil))") }` -/
def nilInElse : Stmt :=
  .cond ⟨.name "ok", .inserted [], .block (.inserted [.expr (.apply (.name "print")
    [.template [.embed (nilCall ⟨40, 43⟩) none .nowhere] .nowhere])]), .nowhere⟩

/-- `defer run(func() { if ok { } else { print("\(use(nil))") } })` -/
def nilDeferred : Stmt :=
  .defer (.apply (.name "run") [.func [] none (.inserted [nilInElse]) .nowhere]) .nowhere

/-- The nil inside a deferred call, a function literal, an `else` and a template is reported where
it stands. -/
theorem lowerTypes_reports_nil_deferred :
    (nilPasser [nilDeferred]).body.Reaches (.expr (nilCall ⟨40, 43⟩)) ∧
      PassesNil (scopeOf {} (nilUnit [nilDeferred]) (nilPasser [nilDeferred])) (.name "use")
        [.lit .nil ⟨40, 43⟩] (.lit .nil ⟨40, 43⟩) ∧
      ∃ faults, (lowerTypes {} (nilUnit [nilDeferred])).outcome = .error faults ∧
        ∃ fault ∈ faults, fault.cause.kind = .nilToNonNillable ∧ fault.span = ⟨40, 43⟩ := by
  have hmain : .func (nilPasser [nilDeferred]) ∈ (nilUnit [nilDeferred]).items :=
    List.mem_cons_of_mem _ List.mem_cons_self
  -- down into the call, the literal, the statement after `else`, its call and the template
  have hreaches : (nilPasser [nilDeferred]).body.Reaches (.expr (nilCall ⟨40, 43⟩)) := by
    refine ⟨nilDeferred, List.mem_cons_self, ?_⟩
    refine .head List.mem_cons_self ?_
    refine .head (List.mem_cons_of_mem _ List.mem_cons_self) ?_
    refine .head List.mem_cons_self ?_
    refine .head (List.mem_cons_of_mem _ List.mem_cons_self) ?_
    refine .head List.mem_cons_self ?_
    refine .head (List.mem_cons_of_mem _ List.mem_cons_self) ?_
    exact .single List.mem_cons_self
  have hpasses : PassesNil (scopeOf {} (nilUnit [nilDeferred]) (nilPasser [nilDeferred]))
      (.name "use") [.lit .nil ⟨40, 43⟩] (.lit .nil ⟨40, 43⟩) :=
    ⟨_, 0, .named "T", rfl, rfl, rfl, .nil⟩
  exact ⟨hreaches, hpasses, (lowerTypes_reports_nil {} hmain).1 _ _ _ hreaches _ hpasses⟩

/-- `if ok { } else if use(nil) { }` and `for ; ; use(nil) { break }` -/
def nilUnseen : List Stmt :=
  [.cond ⟨.name "ok", .inserted [],
      .elseIf ⟨nilCall ⟨40, 43⟩, .inserted [], .none, .nowhere⟩, .nowhere⟩,
    .loop (.three none none (some (.expr (nilCall ⟨60, 63⟩)))) (.inserted [.breakLoop .nowhere])
      .nowhere]

/-- Neither of the two calls is reported. -/
theorem lowerTypes_reports_nil_unseen :
    (∃ typed, (lowerTypes {} (nilUnit nilUnseen)).outcome = .ok typed) ∧
      .func (nilPasser nilUnseen) ∈ (nilUnit nilUnseen).items ∧
      ∀ span ∈ [⟨40, 43⟩, ⟨60, 63⟩], .expr (nilCall span) ∈ (nilPasser nilUnseen).body.nodes ∧
        PassesNil (scopeOf {} (nilUnit nilUnseen) (nilPasser nilUnseen)) (.name "use")
          [.lit .nil span] (.lit .nil span) := by
  have hpasses (span : Span) :
      PassesNil (scopeOf {} (nilUnit nilUnseen) (nilPasser nilUnseen)) (.name "use")
        [.lit .nil span] (.lit .nil span) := ⟨_, 0, .named "T", rfl, rfl, rfl, .nil⟩
  refine ⟨⟨_, rfl⟩, List.mem_cons_of_mem _ List.mem_cons_self, ?_⟩
  rw [List.forall_mem_cons, List.forall_mem_singleton]
  refine ⟨⟨?_, hpasses _⟩, ?_, hpasses _⟩
  · simp [nilPasser, nilUnseen, Block.inserted, Block.nodes, Stmt.nodesList, Stmt.nodes, If.nodes,
      Else.nodes, nilCall, Expr.apply, Expr.nodes]
  · simp [nilPasser, nilUnseen, Block.inserted, Block.nodes, Stmt.nodesList, Stmt.nodes, If.nodes,
      Else.nodes, Clause.nodes, Stmt.nodesOption, Expr.nodesOption, nilCall, Expr.apply, Expr.nodes]

end Desugar
