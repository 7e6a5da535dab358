import Desugar.Proofs.Fresh
import Desugar.Proofs.Pass

/-!
# The names that a pass takes

A supply keeps the names that were taken from it in front of those that it avoided at first, so that
the names which a pass takes can be read off the supply that it leaves.

- `NameSupply.Draws`: the names that lie between two supplies. They are new to the first one and
  differ from each other.
- `Pass.Takes`: a computation changes the supply by taking names only, and what it makes of them
  satisfies a condition. `Pass.Draws` is the same without a condition.
- `Pass.drawn`: the names that a computation takes, see `Pass.drawn_eq`.
-/

namespace Desugar

/-- The second supply is what is left of the first after the names were taken from it, in order. -/
structure NameSupply.Draws (first : NameSupply) (names : List String) (second : NameSupply) :
    Prop where
  used : second.used = names.reverse ++ first.used
  new : ∀ x ∈ names, x ∉ first.used
  nodup : names.Nodup

namespace NameSupply.Draws

variable {first second third : NameSupply} {xs ys : List String}

theorem nothing (supply : NameSupply) : supply.Draws [] supply :=
  ⟨rfl, by simp, List.nodup_nil⟩

/-- A request takes the name that it gives. -/
theorem fresh (supply : NameSupply) (role : String) :
    supply.Draws [(supply.fresh role).1] (supply.fresh role).2 where
  used := rfl
  new := by simpa using supply.fresh_not_mem role
  nodup := List.nodup_singleton _

/-- Names are taken one after another, so those of two steps differ from each other. -/
theorem append (h : first.Draws xs second) (h' : second.Draws ys third) :
    first.Draws (xs ++ ys) third where
  used := by rw [h'.used, h.used, List.reverse_append, List.append_assoc]
  new := by
    intro x hx hused
    rcases List.mem_append.mp hx with hx | hx
    · exact h.new x hx hused
    · refine h'.new x hx ?_
      rw [h.used]
      exact List.mem_append_right _ hused
  nodup := by
    refine List.Nodup.append h.nodup h'.nodup fun x hx hx' => h'.new x hx' ?_
    rw [h.used]
    exact List.mem_append_left _ (List.mem_reverse.mpr hx)

/-- A list of requests takes the names that it gives. -/
theorem freshList (supply : NameSupply) (roles : List String) :
    supply.Draws (supply.freshList roles).1 (supply.freshList roles).2 := by
  induction roles generalizing supply with
  | nil => exact nothing supply
  | cons role rest ih => exact (fresh supply role).append (ih _)

end NameSupply.Draws

namespace Pass

variable {α β : Type}

/-- The names that a computation takes from a supply, in order. -/
def drawn (p : Pass α) (supply : NameSupply) : List String :=
  let used := (p supply).supply.used
  (used.take (used.length - supply.used.length)).reverse

/-- The names that a computation takes can be read off the supply that it leaves. -/
theorem drawn_eq {p : Pass α} {supply : NameSupply} {names : List String}
    (h : supply.Draws names (p supply).supply) : p.drawn supply = names := by
  simp [drawn, h.used]

/-- Whatever the supply, the computation takes names from it such that the value, the emitted
statements and the names satisfy the condition. -/
def Takes (p : Pass α) (Q : α → List Stmt → List String → Prop) : Prop :=
  ∀ supply : NameSupply, ∃ names, supply.Draws names (p supply).supply ∧
    Q (p supply).value (p supply).code names

/-- Whatever the supply, the computation takes names from it and does nothing else to it. -/
def Draws (p : Pass α) : Prop := p.Takes fun _ _ _ => True

/-- The computation takes no name. -/
def DrawsNothing (p : Pass α) : Prop := ∀ supply, (p supply).supply = supply

variable {p q : Pass α} {f : α → Pass β}

namespace Takes

variable {Q R : α → List Stmt → List String → Prop} {S : β → List Stmt → List String → Prop}

theorem pure {a : α} (h : Q a [] []) : (Pure.pure a : Pass α).Takes Q :=
  fun supply => ⟨[], .nothing supply, h⟩

/-- A made-up name ends in a digit, so it is not a blank. -/
theorem fresh {role : String} {Q : String → List Stmt → List String → Prop}
    (h : ∀ x, x ≠ "_" → Q x [] [x]) : (Pass.fresh role).Takes Q :=
  fun supply => ⟨_, .fresh supply role, h _ (supply.candidate_ne role _ (by decide))⟩

theorem emit {code : List Stmt} {Q : Unit → List Stmt → List String → Prop} (h : Q () code []) :
    (Pass.emit code).Takes Q :=
  fun supply => ⟨[], .nothing supply, h⟩

theorem record {event : Event} {Q : Unit → List Stmt → List String → Prop} (h : Q () [] []) :
    (Pass.record event).Takes Q :=
  fun supply => ⟨[], .nothing supply, h⟩

/-- What the second computation takes comes after what the first one took. -/
theorem bind (hp : p.Takes Q) (hf : ∀ a code xs, Q a code xs →
    (f a).Takes fun b code' ys => S b (code ++ code') (xs ++ ys)) : (p >>= f).Takes S := by
  intro supply
  obtain ⟨xs, hxs, hQ⟩ := hp supply
  obtain ⟨ys, hys, hS⟩ := hf _ _ _ hQ (p supply).supply
  exact ⟨xs ++ ys, hxs.append hys, hS⟩

theorem mono (hp : p.Takes Q) (h : ∀ a code xs, Q a code xs → R a code xs) : p.Takes R := by
  intro supply
  obtain ⟨xs, hxs, hQ⟩ := hp supply
  exact ⟨xs, hxs, h _ _ _ hQ⟩

theorem ite {condition : Prop} [Decidable condition] (hp : condition → p.Takes Q)
    (hq : ¬ condition → q.Takes Q) : (if condition then p else q).Takes Q := by
  split
  · exact hp ‹_›
  · exact hq ‹_›

end Takes

end Pass

end Desugar
