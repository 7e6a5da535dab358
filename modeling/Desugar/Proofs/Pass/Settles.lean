import Desugar.Proofs.Pass.Draws
import Desugar.Proofs.Tree.Lowered

/-!
# What becomes of the nodes of a tree

A pass rebuilds code, makes up names and inserts code of its own. `Pass.Settles` says that all nodes
of the result have a property that may depend on the names which are known: those of the source, and
those that the pass has taken from its supply. What is lowered later knows the names that were taken
before, so the rules for sequences hand on a list of known names that grows.

A pass goes on after a fault. Where it is `strict`, nothing is said of what it makes then.
-/

namespace Desugar.Pass

variable {α β : Type}

/-- Whatever the supply, once the names are known that the computation takes from it, all nodes of
the value and of the emitted code are good. -/
def Settles (strict : Bool) {fixed : List String} (T : Node.Trait fixed) (known : List String)
    (p : Pass α) (nodes : α → List Node) : Prop :=
  ∀ supply, (strict = true → (p supply).notes.faults = []) →
    ∃ xs, supply.Draws xs (p supply).supply ∧
      Within (T.good (xs ++ known)) (nodes (p supply).value) ∧
      Within (T.good (xs ++ known)) (Stmt.nodesList (p supply).code)

namespace Settles

variable {strict : Bool} {fixed known later : List String} {T : Node.Trait fixed} {p q : Pass α}
  {f : α → Pass β} {nodes : α → List Node} {final : β → List Node}

theorem pure {a : α} (h : Within (T.good known) (nodes a)) :
    (Pure.pure a : Pass α).Settles strict T known nodes :=
  fun supply _ => ⟨[], .nothing supply, h, within_nil⟩

/-- More names may be known. -/
theorem mono (h : p.Settles strict T known nodes) (hlater : known ⊆ later) :
    p.Settles strict T later nodes := by
  intro supply hstrict
  obtain ⟨xs, hxs, ha, hcode⟩ := h supply hstrict
  have hgrow : xs ++ known ⊆ xs ++ later := by
    intro x hx
    grind
  exact ⟨xs, hxs, ha.grow hgrow, hcode.grow hgrow⟩

/-- What follows a computation knows the names that this has taken, and a fact about its value. -/
theorem bind_and {R : α → Prop} (hp : p.Settles strict T known nodes)
    (hR : ∀ supply, (strict = true → (p supply).notes.faults = []) → R (p supply).value)
    (hf : ∀ a later, known ⊆ later → Within (T.good later) (nodes a) → R a →
      (f a).Settles strict T later final) :
    (p >>= f).Settles strict T known final := by
  intro supply hstrict
  have hfaults (h : strict = true) : (p supply).notes.faults = [] ∧
      (f (p supply).value (p supply).supply).notes.faults = [] :=
    List.append_eq_nil_iff.mp (hstrict h)
  obtain ⟨xs, hxs, ha, hcode⟩ := hp supply fun h => (hfaults h).1
  obtain ⟨ys, hys, hb, hcode'⟩ := hf _ (xs ++ known) (List.subset_append_right _ _) ha
    (hR supply fun h => (hfaults h).1) _ fun h => (hfaults h).2
  -- What was emitted before is good with fewer names known, so it stays good.
  have hearlier : xs ++ known ⊆ xs ++ ys ++ known := by
    intro x hx
    grind
  have hlater : ys ++ (xs ++ known) ⊆ xs ++ ys ++ known := by
    intro x hx
    grind
  exact ⟨xs ++ ys, hxs.append hys, hb.grow hlater,
    within_stmts_append.mpr ⟨hcode.grow hearlier, hcode'.grow hlater⟩⟩

theorem bind (hp : p.Settles strict T known nodes)
    (hf : ∀ a later, known ⊆ later → Within (T.good later) (nodes a) →
      (f a).Settles strict T later final) :
    (p >>= f).Settles strict T known final :=
  hp.bind_and (R := fun _ => True) (fun _ _ => trivial)
    fun a later hlater ha _ => hf a later hlater ha

theorem fresh (role : String) :
    (Pass.fresh role).Settles strict T known fun x => (Expr.name x).nodes :=
  fun supply _ => ⟨_, .fresh supply role, T.name (.inl (by simp)), within_nil⟩

theorem freshList (roles : List String) :
    (Pass.freshList roles).Settles strict T known fun xs => Expr.nodesList (xs.map Expr.name) :=
  fun supply _ => ⟨_, .freshList supply roles,
    T.names fun _ hx => .inl (List.mem_append_left _ hx), within_nil⟩

theorem emit {code : List Stmt} (h : Within (T.good known) (Stmt.nodesList code)) :
    (Pass.emit code).Settles strict T known fun _ => [] :=
  fun supply _ => ⟨[], .nothing supply, within_nil, h⟩

theorem note (notes : Notes) : (Pass.note notes).Settles strict T known fun _ => [] :=
  fun supply _ => ⟨[], .nothing supply, within_nil, within_nil⟩

/-- Emitted code takes no name. -/
theorem emit_bind {code : List Stmt} {f : Unit → Pass β}
    (h : Within (T.good known) (Stmt.nodesList code))
    (hf : (f ()).Settles strict T known final) :
    (Pass.emit code >>= f).Settles strict T known final :=
  (emit h).bind fun _ _ hlater _ => hf.mono hlater

theorem note_bind {notes : Notes} {f : Unit → Pass β} (hf : (f ()).Settles strict T known final) :
    (Pass.note notes >>= f).Settles strict T known final :=
  (note notes).bind fun _ _ hlater _ => hf.mono hlater

/-- After a fault, anything may be made. -/
theorem fault {cause : Cause} {span : Span} {nodes : Unit → List Node} :
    (Pass.report cause span).Settles true T known nodes := by
  intro supply hstrict
  cases hstrict rfl

theorem fault_bind {cause : Cause} {span : Span} {f : Unit → Pass β} :
    (Pass.report cause span >>= f).Settles true T known final := by
  intro supply hstrict
  cases hstrict rfl

theorem ite {condition : Prop} [Decidable condition]
    (hp : condition → p.Settles strict T known nodes)
    (hq : ¬ condition → q.Settles strict T known nodes) :
    (if condition then p else q).Settles strict T known nodes := by
  split
  · exact hp ‹_›
  · exact hq ‹_›

theorem collect (h : p.Settles strict T known nodes) :
    p.collect.Settles strict T known fun x => nodes x.1 ++ Stmt.nodesList x.2 := by
  intro supply hstrict
  obtain ⟨xs, hxs, ha, hcode⟩ := h supply hstrict
  exact ⟨xs, hxs, within_append.mpr ⟨ha, hcode⟩, within_nil⟩

/-- All that the computation does to its supply is to take names. -/
theorem draws (h : p.Settles false T known nodes) : p.Draws := by
  intro supply
  obtain ⟨xs, hxs, -⟩ := h supply fun hstrict => by cases hstrict
  exact ⟨xs, hxs, trivial⟩

/-- The nodes of what a pass over a function gives, once the names are known that it takes. -/
theorem runWith (h : p.Settles strict T known nodes) (supply : NameSupply)
    (hstrict : strict = true → (p supply).notes.faults = []) :
    Within (T.good (p.drawn supply ++ known)) (nodes (p.runWith supply).value) := by
  obtain ⟨xs, hxs, ha, -⟩ := h supply hstrict
  rw [drawn_eq hxs]
  exact ha

end Settles

end Desugar.Pass
