import Desugar.Proofs.Propagation.Account
import Desugar.Proofs.Ty.Lowering

/-!
# Accepted units keep the result discipline

The checks that keep an error from being dropped are spread over error propagation: some are made
before the operands of a node are lowered and some after, some only for statements, some by the
frame. A unit that passes without a fault keeps them everywhere, at any depth and inside function
literals, whose own return clauses count.

- `Block.IsDisciplined`: the rules, for a body that returns a result or not.
- `propagateErrors_disciplined`: the bodies of an accepted unit keep them.
-/

namespace Desugar

/-- Every site of a body keeps the rules; those in function literals are not among them. -/
def Block.IsDisciplined (scope : Scope) (result : Bool) (body : Block) : Prop :=
  ∀ site ∈ body.sites, site.IsDisciplined scope result

/-- The body of a function literal keeps the rules, by its own return clause. -/
def Node.IsDisciplined (scope : Scope) : Node → Prop
  | .expr (.func _ returns body _) => body.IsDisciplined scope (returns.any Ty.isResult)
  | _ => True

/-- A node that is not marked is no function literal and keeps the rules. -/
theorem Node.isDisciplined_of_not_isMarked {scope : Scope} {node : Node}
    (h : node.isMarked = false) : node.IsDisciplined scope := by
  cases node with
  | stmt _ => trivial
  | expr e =>
    cases e with
    | func => cases h
    | _ => trivial

namespace Propagation

variable {cx : Context} {first : NameSupply} {frame : Frame} {sites : Multiset Site}
  {nodes : Multiset Node}

namespace Trade

/-- Only sites that keep the rules are traded. -/
theorem isDisciplined (h : Trade cx first frame sites nodes) :
    ∀ site ∈ sites, site.IsDisciplined cx.toScope frame.isResult := by
  induction h with
  | none => simp
  | both _ _ ih ih' =>
    intro site hsite
    rcases Multiset.mem_add.mp hsite with hsite | hsite
    · exact ih site hsite
    · exact ih' site hsite
  | plain _ hsite => simpa using hsite
  | helper _ => simp
  | receive | call _ | literal _ _ | ret _ => simp [Site.IsDisciplined]
  | attempt hresult hfails hspread =>
    simpa [Site.IsDisciplined] using ⟨hresult, _, hfails, hspread⟩
  | throw hresult => simpa [Site.IsDisciplined] using hresult

/-- The literals at the traded sites, and those inside them, keep the rules. -/
theorem isDisciplined_deep (h : Trade cx first frame sites nodes) :
    ∀ site ∈ sites, ∀ node ∈ site.node.deep, node.IsDisciplined cx.toScope := by
  induction h with
  | none => simp
  | both _ _ ih ih' =>
    intro site hsite
    rcases Multiset.mem_add.mp hsite with hsite | hsite
    · exact ih site hsite
    · exact ih' site hsite
  | plain hplain _ =>
    intro site hsite
    obtain rfl := Multiset.mem_singleton.mp hsite
    rw [Node.deep_of_not_isMarked hplain, List.forall_mem_singleton]
    exact Node.isDisciplined_of_not_isMarked hplain
  | helper _ => simp
  | receive | call _ | attempt _ _ _ | throw _ | ret _ => simp [Node.deep, Node.IsDisciplined]
  | @literal frame params returns shape name body body' span spread hshape hbody ih =>
    have hresult : shape.isResult = returns.any Ty.isResult := ReturnShape.isResult_eq_any hshape
    intro site hsite
    obtain rfl := Multiset.mem_singleton.mp hsite
    refine List.forall_mem_cons.mpr ⟨?_, ?_⟩
    · intro site hsite
      rw [← hresult]
      exact hbody.isDisciplined site (Multiset.mem_coe.mpr hsite)
    · -- A literal further inside is one at or inside a site of the body.
      intro node hnode
      rw [Block.nodes_eq] at hnode
      obtain ⟨site, hsite, hnode⟩ := List.mem_flatMap.mp hnode
      exact ih site (Multiset.mem_coe.mpr hsite) node hnode

end Trade

end Propagation

open Propagation

/-- If error propagation accepts a unit, then no error is dropped in its functions, at any depth:
the body of a function keeps the rules by its signature, and the body of each function literal in it
by the return clause of the literal. -/
theorem propagateErrors_disciplined {table : SignatureTable} {settings : Settings}
    {program lowered : Program} (h : (propagateErrors table settings program).outcome = .ok lowered)
    {f : Function} {sig : Signature} (hf : .func f ∈ program.items)
    (hsig : table.get? f.key = some sig) :
    f.body.IsDisciplined (.ofFunction table f) sig.isResult ∧
      ∀ params returns body span, .expr (.func params returns body span) ∈ f.body.nodes →
        body.IsDisciplined (.ofFunction table f) (returns.any Ty.isResult) := by
  obtain ⟨i, hi⟩ := List.mem_iff_getElem?.mp hf
  obtain ⟨f', -, hlowered⟩ := propagateErrors_lowered h hi hsig
  refine ⟨fun site hsite => hlowered.trade.isDisciplined site (Multiset.mem_coe.mpr hsite), ?_⟩
  intro params returns body span hmem
  rw [Block.nodes_eq] at hmem
  obtain ⟨site, hsite, hmem⟩ := List.mem_flatMap.mp hmem
  exact hlowered.trade.isDisciplined_deep site (Multiset.mem_coe.mpr hsite) _ hmem

/-- The function `poll` and its function literals drop no error. -/
theorem propagateErrors_disciplined_poll :
    (propagateErrors pollTable {} pollUnit).outcome =
        .ok (propagateErrors pollTable {} pollUnit).value ∧
      .func poll ∈ pollUnit.items ∧
      pollTable.get? poll.key = some (resultSignature "poll" [.named "int"]) ∧
      poll.body.IsDisciplined (.ofFunction pollTable poll) true ∧
      ∀ params returns body span, .expr (.func params returns body span) ∈ poll.body.nodes →
        body.IsDisciplined (.ofFunction pollTable poll) (returns.any Ty.isResult) := by
  have haccepted : (propagateErrors pollTable {} pollUnit).outcome =
      .ok (propagateErrors pollTable {} pollUnit).value := rfl
  have hsig : pollTable.get? poll.key = some (resultSignature "poll" [.named "int"]) := rfl
  have hmem : .func poll ∈ pollUnit.items := List.mem_cons_self
  exact ⟨haccepted, hmem, hsig, propagateErrors_disciplined haccepted hmem hsig⟩

end Desugar
