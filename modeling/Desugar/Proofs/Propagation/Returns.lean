import Desugar.Proofs.Propagation.Account
import Desugar.Proofs.Tree.Lowered

/-!
# Returns of lowered functions

A function that returns a result `Result<T>` is lowered to one that returns the values of `T` and an
error. Its returns come from several places: a `return` of the source gets the missing error, keeps
the one that it has or passes a call on; `throw` and `try` become returns of zero values. All these
fit the return clause of the function or function literal that they belong to, however deep they
stand.

- `ReturnsLowered`: what becomes of the ways out of a body.
- `propagateErrors_returns`: the functions of a lowered unit, and the function literals in them.
-/

namespace Desugar

/-- The node is a way out of its function. -/
def Node.isExit : Node → Bool
  | .expr (.attempt _ _) | .stmt (.throw _ _) | .stmt (.ret _ _) => true
  | _ => false

/-- The node is a `return`. -/
def Node.isReturn : Node → Bool
  | .stmt (.ret _ _) => true
  | _ => false

/-- A way out of a function is marked. -/
theorem Node.isMarked_of_isExit {node : Node} (h : node.isExit = true) :
    node.isMarked = true := by
  match node, h with
  | .expr (.attempt _ _), _ | .stmt (.throw _ _), _ | .stmt (.ret _ _), _ => rfl

/-- A function literal is marked. -/
theorem Node.isMarked_of_isFunc {node : Node} (h : node.isFunc = true) : node.isMarked = true := by
  match node, h with
  | .expr (.func _ _ _ _), _ => rfl

/-- The nodes of a body that are not inside a function literal. -/
def Block.own (body : Block) : Multiset Node := body.sites.map Site.node

/-- All returns are marked. -/
theorem Block.filter_isReturn_own (body : Block) :
    (body.own.filter fun node => node.isReturn) =
      (Site.marked body.sites).filter fun node => node.isReturn := by
  have hmarked (node : Node) (h : node.isReturn = true) : node.isMarked = true := by
    match node, h with
    | .stmt (.ret _ _), _ => rfl
  have hfilter : Site.marked body.sites = body.own.filter fun node => node.isMarked := by
    simp [Site.marked, Block.own]
  rw [hfilter, Multiset.filter_filter]
  refine Multiset.filter_congr fun node _ => ?_
  exact ⟨fun h => ⟨h, hmarked node h⟩, And.left⟩

namespace Propagation

/-- What becomes of a way out: a return stays one, and `throw` and `try` give the zero values and an
error. -/
inductive ExitLowered (zeros : List Expr) : Node → Node → Prop
  | ret (values values' : List Expr) (span : Span) :
    ExitLowered zeros (.stmt (.ret values span)) (.stmt (.ret values' span))
  | throw (value error : Expr) (span : Span) :
    ExitLowered zeros (.stmt (.throw value span)) (.stmt (.ret (zeros ++ [error]) span))
  | attempt (operand error : Expr) (span : Span) :
    ExitLowered zeros (.expr (.attempt operand span)) (.stmt (.ret (zeros ++ [error]) span))

/-- The ways out of a body become the returns of the lowered body, one for one. If the body returns
a result, each of them gives its values and an error, or passes a call on that does. -/
structure ReturnsLowered (scope : Scope) (shape : ReturnShape) (body body' : Block) : Prop where
  exits : Multiset.Rel (ExitLowered (shape.values.map (Ty.zero scope.table.isStruct)))
    (body.own.filter fun node => node.isExit) (body'.own.filter fun node => node.isReturn)
  arity : shape.isResult = true → ∀ values span, .stmt (.ret values span) ∈ body'.own →
    values.length = shape.values.length + 1 ∨
      ∃ call sig, values = [call] ∧ scope.Fails call sig ∧ sig.values.length = shape.values.length

/-- A function literal is lowered by its own return clause. -/
inductive LiteralLowered (scope : Scope) (policy : OptionPolicy) : Node → Node → Prop
  | intro {params : List Param} {returns : Option Ty} {shape : ReturnShape} {body body' : Block}
      {span : Span} : ReturnShape.ofClause policy returns = .ok shape →
    ReturnsLowered scope shape body body' →
    LiteralLowered scope policy (.expr (.func params returns body span))
      (.expr (.func params shape.clause body' span))

namespace Trade

variable {cx : Context} {first : NameSupply} {frame : Frame} {sites : Multiset Site}
  {nodes : Multiset Node}

/-- The ways out are traded for returns. -/
theorem rel_exits (h : Trade cx first frame sites nodes) :
    Multiset.Rel (ExitLowered frame.zeros) ((sites.map Site.node).filter fun node => node.isExit)
      (nodes.filter fun node => node.isReturn) := by
  induction h with
  | none => exact .zero
  | both _ _ ih ih' =>
    rw [Multiset.map_add, Multiset.filter_add, Multiset.filter_add]
    exact ih.add ih'
  | @plain frame site hplain _ =>
    have hexit : site.node.isExit = false :=
      Node.eq_false_of_not_isMarked Node.isMarked_of_isExit hplain
    rw [Multiset.map_singleton, Multiset.filter_singleton, if_neg (by simp [hexit])]
    exact .zero
  | helper _ | receive | call _ | literal _ _ => exact .zero
  | attempt _ _ _ => exact .cons (.attempt _ _ _) .zero
  | throw _ => exact .cons (.throw _ _ _) .zero
  | ret _ => exact .cons (.ret _ _ _) .zero

/-- Every return fits the frame. -/
theorem returns (h : Trade cx first frame sites nodes) :
    ∀ values span, .stmt (.ret values span) ∈ nodes → frame.Returns cx.toScope values := by
  induction h with
  | none => simp
  | both _ _ ih ih' =>
    intro values span hmem
    rcases Multiset.mem_add.mp hmem with hmem | hmem
    · exact ih values span hmem
    · exact ih' values span hmem
  | plain _ _ => simp
  | helper _ | receive | call _ | literal _ _ => simp
  | attempt _ _ _ | throw _ =>
    intro values span hmem
    cases Multiset.mem_singleton.mp hmem
    exact fun _ => .inl (by simp [Frame.valueCount])
  | ret hreturns =>
    intro values span hmem
    cases Multiset.mem_singleton.mp hmem
    exact hreturns

/-- The trade of a body, as far as its ways out are concerned. -/
theorem returnsLowered {shape : ReturnShape} {name : String} {body body' : Block}
    (h : Trade cx first (.ofShape cx.table name shape) body.sites (Site.marked body'.sites)) :
    ReturnsLowered cx.toScope shape body body' where
  exits := by
    rw [Block.filter_isReturn_own]
    exact h.rel_exits
  arity hresult values span hmem := by
    have hmarked : .stmt (.ret values span) ∈ Site.marked body'.sites :=
      Multiset.mem_coe.mpr (List.mem_filter.mpr ⟨Multiset.mem_coe.mp hmem, rfl⟩)
    have hcount : (Frame.ofShape cx.table name shape).valueCount = shape.values.length :=
      List.length_map _
    rw [← hcount]
    exact h.returns values span hmarked hresult

/-- The function literals, at any depth, are lowered one by one. -/
theorem rel_literals (h : Trade cx first frame sites nodes) :
    Multiset.Rel (LiteralLowered cx.toScope cx.settings.optionPolicy)
      (Site.inside Node.isFunc sites) (nodes.bind (Node.inside Node.isFunc)) := by
  induction h with
  | none => exact .zero
  | both _ _ ih ih' =>
    rw [Site.inside, Multiset.add_bind, Multiset.add_bind]
    exact ih.add ih'
  | plain hplain _ =>
    rw [Site.inside, Multiset.singleton_bind,
      Node.inside_of_not_isMarked Node.isMarked_of_isFunc hplain]
    exact .zero
  | helper _ | receive | call _ | attempt _ _ _ | throw _ | ret _ => exact .zero
  | @literal frame params returns shape name body body' span spread hshape hbody ih =>
    rw [← Block.filter_nodes, ← Block.filter_nodes_marked fun _ => Node.isMarked_of_isFunc] at ih
    rw [Site.inside, Multiset.singleton_bind, Multiset.singleton_bind]
    exact .cons (.intro hshape hbody.returnsLowered) ih

end Trade

end Propagation

open Propagation

/-- If error propagation accepts a unit, then each function in it whose signature is known gets the
return clause of its signature. The ways out of its body become returns that fit this clause, and so
do those of the function literals in it, each by its own return clause. -/
theorem propagateErrors_returns {table : SignatureTable} {settings : Settings}
    {program lowered : Program} (h : (propagateErrors table settings program).outcome = .ok lowered)
    {i : Nat} {f : Function} {sig : Signature} (hf : program.items[i]? = some (.func f))
    (hsig : table.get? f.key = some sig) :
    ∃ f', lowered.items[i]? = some (.func f') ∧ f'.returns = sig.clause ∧
      ReturnsLowered (.ofFunction table f) sig.returns f.body f'.body ∧
      Multiset.Rel (LiteralLowered (.ofFunction table f) settings.optionPolicy)
        (f.body.nodes.filter Node.isFunc) (f'.body.nodes.filter Node.isFunc) := by
  obtain ⟨f', hf', hlowered⟩ := propagateErrors_lowered h hf hsig
  refine ⟨f', hf', hlowered.returns, hlowered.trade.returnsLowered, ?_⟩
  rw [Block.filter_nodes, Block.filter_nodes_marked fun _ => Node.isMarked_of_isFunc]
  exact hlowered.trade.rel_literals

/-- The ways out of `poll` become returns of an integer and an error. -/
theorem propagateErrors_returns_poll :
    (propagateErrors pollTable {} pollUnit).outcome =
        .ok (propagateErrors pollTable {} pollUnit).value ∧
      pollUnit.items[0]? = some (.func poll) ∧
      pollTable.get? poll.key = some (resultSignature "poll" [.named "int"]) ∧
      ∃ f', (propagateErrors pollTable {} pollUnit).value.items[0]? = some (.func f') ∧
        f'.returns = some (.tuple [.named "int", .error]) ∧
        ReturnsLowered (.ofFunction pollTable poll)
          { declared := [.named "int"], values := [.named "int"], isResult := true } poll.body
          f'.body ∧
        Multiset.Rel (LiteralLowered (.ofFunction pollTable poll) .nilSentinel)
          (poll.body.nodes.filter Node.isFunc) (f'.body.nodes.filter Node.isFunc) := by
  have haccepted : (propagateErrors pollTable {} pollUnit).outcome =
      .ok (propagateErrors pollTable {} pollUnit).value := rfl
  have hsig : pollTable.get? poll.key = some (resultSignature "poll" [.named "int"]) := rfl
  exact ⟨haccepted, rfl, hsig, propagateErrors_returns haccepted rfl hsig⟩

end Desugar
