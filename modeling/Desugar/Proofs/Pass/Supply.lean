import Desugar.Proofs.Fresh
import Desugar.Proofs.Pass.Yields

/-!
# Passes that draw on a supply

A pass is run from a supply that avoids the names of a function, and its parts are run from what
earlier parts left of it. `Pass.EnsuresFrom first` is `Pass.Ensures` for the supplies that come from
`first`: the part leaves such a supply again, so the names that are made up anywhere in the pass are
names that `first` offers.
-/

namespace Desugar.Pass

variable {α β : Type} {first : NameSupply}

/-- From a supply that comes from `first` and without a fault, the value and the emitted statements
satisfy the condition, and the supply that is left comes from `first`. -/
def EnsuresFrom (first : NameSupply) (p : Pass α) (Q : α → List Stmt → Prop) : Prop :=
  ∀ supply, first.Advances supply → (p supply).notes.faults = [] →
    first.Advances (p supply).supply ∧ Q (p supply).value (p supply).code

variable {p q : Pass α} {f : α → Pass β} {Q R : α → List Stmt → Prop} {S : β → List Stmt → Prop}

theorem EnsuresFrom.mono (h : p.EnsuresFrom first Q) (himp : ∀ a code, Q a code → R a code) :
    p.EnsuresFrom first R :=
  fun supply hadvances hfaults => (h supply hadvances hfaults).imp_right (himp _ _)

/-- What holds from any supply and with faults may be added. -/
theorem EnsuresFrom.and (h : p.EnsuresFrom first Q)
    (hR : ∀ supply, R (p supply).value (p supply).code) :
    p.EnsuresFrom first fun a code => Q a code ∧ R a code :=
  fun supply hadvances hfaults =>
    (h supply hadvances hfaults).imp_right fun hq => ⟨hq, hR supply⟩

theorem EnsuresFrom.pure {a : α} (h : Q a []) : (Pure.pure a : Pass α).EnsuresFrom first Q :=
  fun _ hadvances _ => ⟨hadvances, h⟩

/-- The second computation goes on with the supply that the first one leaves. -/
theorem EnsuresFrom.bind (hp : p.EnsuresFrom first Q)
    (hf : ∀ a before, Q a before → (f a).EnsuresFrom first fun b code => S b (before ++ code)) :
    (p >>= f).EnsuresFrom first S := by
  intro supply hadvances hfaults
  rw [notes_bind, Notes.faults_append, List.append_eq_nil_iff] at hfaults
  obtain ⟨hadvances, hq⟩ := hp supply hadvances hfaults.1
  exact hf _ _ hq _ hadvances hfaults.2

/-- A first step that emits nothing. -/
theorem EnsuresFrom.after {Q : α → Prop} (hp : p.EnsuresFrom first fun a code => code = [] ∧ Q a)
    (hf : ∀ a, Q a → (f a).EnsuresFrom first S) : (p >>= f).EnsuresFrom first S := by
  refine hp.bind fun a before ⟨hbefore, ha⟩ => ?_
  subst hbefore
  exact hf a ha

theorem EnsuresFrom.ite {c : Prop} [Decidable c] (hp : c → p.EnsuresFrom first Q)
    (hq : ¬c → q.EnsuresFrom first Q) : (if c then p else q).EnsuresFrom first Q := by
  by_cases hc : c
  · rw [if_pos hc]
    exact hp hc
  · rw [if_neg hc]
    exact hq hc

/-- Collected code is part of the value. -/
theorem EnsuresFrom.collect (h : p.EnsuresFrom first Q) :
    p.collect.EnsuresFrom first fun x code => code = [] ∧ Q x.1 x.2 :=
  fun supply hadvances hfaults => (h supply hadvances hfaults).imp_right fun hq => ⟨rfl, hq⟩

/-- After a fault nothing has to be ensured. -/
theorem ensuresFrom_report {Q : Unit → List Stmt → Prop} (cause : Cause) (span : Span) :
    (report cause span).EnsuresFrom first Q := by
  intro supply _ hfaults
  cases hfaults

theorem ensuresFrom_report_bind (cause : Cause) (span : Span) {f : Unit → Pass β} :
    (report cause span >>= f).EnsuresFrom first S :=
  (ensuresFrom_report (Q := fun _ _ => False) cause span).bind fun _ _ h => h.elim

theorem ensuresFrom_emit {Q : Unit → List Stmt → Prop} {code : List Stmt} (h : Q () code) :
    (emit code).EnsuresFrom first Q :=
  fun _ hadvances _ => ⟨hadvances, h⟩

/-- A pass that emits its code at the end. -/
theorem ensuresFrom_emit_pure {code : List Stmt} {a : α} (h : Q a code) :
    (emit code >>= fun _ => pure a).EnsuresFrom first Q := by
  refine (ensuresFrom_emit (Q := fun _ code' => code' = code) rfl).bind fun _ before hbefore => ?_
  refine .pure ?_
  rw [hbefore, List.append_nil]
  exact h

theorem ensuresFrom_record (event : Event) :
    (record event).EnsuresFrom first fun _ code => code = [] ∧ True :=
  fun _ hadvances _ => ⟨hadvances, rfl, trivial⟩

theorem ensuresFrom_require (function : String) :
    (require function).EnsuresFrom first fun _ code => code = [] ∧ True :=
  fun _ hadvances _ => ⟨hadvances, rfl, trivial⟩

/-- A name is taken that the first supply offers. -/
theorem ensuresFrom_fresh (role : String) :
    (fresh role).EnsuresFrom first fun x code => code = [] ∧ first.Offers role x :=
  fun supply hadvances _ =>
    ⟨hadvances.trans (supply.advances_fresh role), rfl, hadvances.offers role⟩

/-- As many names are taken as there are roles, and the first supply offers them. -/
theorem ensuresFrom_freshList (roles : List String) : (freshList roles).EnsuresFrom first
    fun xs code => code = [] ∧ xs.length = roles.length ∧
      ∀ x ∈ xs, ∃ role ∈ roles, first.Offers role x := by
  intro supply hadvances _
  show _ ∧ _ ∧ (supply.freshList roles).1.length = roles.length ∧
    ∀ x ∈ (supply.freshList roles).1, _
  induction roles generalizing supply with
  | nil => exact ⟨hadvances, rfl, rfl, by simp [NameSupply.freshList]⟩
  | cons role rest ih =>
    obtain ⟨hleft, -, hlength, hall⟩ :=
      ih _ (hadvances.trans (supply.advances_fresh role)) rfl
    refine ⟨hleft, rfl, congrArg (· + 1) hlength, ?_⟩
    intro x hx
    rcases List.mem_cons.mp hx with rfl | hx
    · exact ⟨role, by simp, hadvances.offers role⟩
    · obtain ⟨later, hlater, hoffers⟩ := hall x hx
      exact ⟨later, by simp [hlater], hoffers⟩

end Desugar.Pass
