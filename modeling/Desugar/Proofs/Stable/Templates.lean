import Desugar.Proofs.Tree.Lowered
import Desugar.Proofs.Tree.Traversal
import Desugar.Template.Expand

/-!
# Code without templates

A tree is rebuilt as it was if every node of it is replaced by itself. Expansion replaces only
templates, so it leaves an item without any as it is.

- `Expr.rebuild_eq_pure` and `Block.rebuild_eq_pure`: trees whose nodes are kept.
- `Item.expandTemplates_eq_pure`: an item without templates.
-/

namespace Desugar

section Rebuilt

variable {m : Type → Type} [Monad m] {deep : Bool} {f : Expr → m Expr}

/-- The replacement keeps every expression among the nodes. -/
def Keeps (f : Expr → m Expr) (nodes : List Node) : Prop := ∀ e, .expr e ∈ nodes → f e = pure e

variable [LawfulMonad m]

/-- If nothing is done with the nodes that are handed over, only the result is left. -/
theorem hands_silent {α : Type} {run : m α} {x : α} (nodes : List Expr) :
    Hands (fun _ => pure ()) run x nodes ↔ run = pure x := by
  have hsilent : nodes.forM (fun _ => pure ()) = (pure () : m Unit) := by
    induction nodes with
    | nil => rfl
    | cons e rest ih => exact (pure_bind () _).trans ih
  rw [Hands, hsilent, pure_bind]

/-- Rebuilding keeps an expression if the replacement keeps every expression in it. -/
theorem Expr.rebuild_of_visit (e : Expr) (h : ∀ x ∈ (e.visit fun _ => true), f x = pure x) :
    e.rebuild deep f = pure e := by
  induction e using Expr.childInduction with
  | step e ih =>
    rw [Expr.visit_eq] at h
    obtain ⟨hself, hbelow⟩ := List.forall_mem_cons.mp h
    have hchildren : HandsEach (fun _ => pure ()) deep f (fun _ => []) e.children := by
      intro c hc
      have hkept := ih c hc fun x hx => hbelow x (List.mem_flatMap.mpr ⟨c, hc, hx⟩)
      exact (hands_silent []).mpr hkept
    exact (hands_silent _).mp (Expr.hands_rebuild hchildren ((hands_silent []).mpr hself))

theorem Expr.rebuild_eq_pure (e : Expr) (h : Keeps f e.nodes) : e.rebuild deep f = pure e :=
  e.rebuild_of_visit fun x hx => h x ((Expr.mem_visit x e).mp hx)

/-- Rebuilding keeps a block if the replacement keeps every expression in it. -/
theorem Block.rebuild_eq_pure (block : Block) (h : Keeps f block.nodes) :
    block.rebuild deep f = pure block := by
  have hroots : HandsEach (fun _ => pure ()) deep f (fun _ => []) block.roots := by
    intro e he
    refine (hands_silent []).mpr (e.rebuild_of_visit fun x hx => h x ?_)
    rw [← Block.mem_visit, Block.visit_eq]
    exact List.mem_flatMap.mpr ⟨e, he, hx⟩
  exact (hands_silent _).mp (block.hands_rebuild hroots)

end Rebuilt

variable {function : String}

/-- Where there is no template, the expansion keeps all expressions. -/
theorem keeps_expandTemplate {nodes : List Node}
    (h : Within (fun node => !node.isTemplate) nodes) :
    Keeps (Expr.expandTemplate function) nodes := by
  intro e he
  have hnode := h (.expr e) he
  cases e with
  | template segments span => cases hnode
  | _ => rfl

/-- An item without templates is left as it is. -/
theorem Item.expandTemplates_eq_pure {item : Item}
    (h : item.isWithin (fun node => !node.isTemplate) = true) :
    item.expandTemplates function = pure item := by
  cases item with
  | func decl =>
    obtain ⟨-, hbody⟩ := isWithin_func.mp h
    rw [expandTemplates, Block.rebuild_eq_pure decl.body (keeps_expandTemplate hbody), pure_bind]
  | const decl =>
    obtain ⟨-, hvalue⟩ := isWithin_const.mp h
    rw [expandTemplates, Expr.rebuild_eq_pure decl.value (keeps_expandTemplate hvalue), pure_bind]
  | struct decl => rfl
  | enum decl => rfl
  | support stem => rfl

end Desugar
