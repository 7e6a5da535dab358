import Mathlib.Data.List.Forall2
import Desugar.Proofs.Emit.Accepted

/-!
# Types of values

Three functions sort types on their own: lowering rejects some, `Ty.isBase` tells the base types,
and writing a type out fails on others. They agree on what a value can have. A type has a lowered
form exactly if no result and no tuple occurs in it; that form is base, can be written out, and
lowering has nothing more to do with it. A return clause has a shape exactly if the values it
declares are of this kind, once its outer result and then its outer tuple are taken off.

- `Ty.Occurs` is occurrence at any depth, and `Ty.isValue` decides whether a result or tuple occurs.
- `Ty.isOk_lower` and `ReturnShape.isOk_ofClause`: what can be lowered.
- `ReturnShape.values_ofClause` and `ReturnShape.clause_eq`: what a return clause becomes.
- `lower_eq_ok_iff` puts them together.
-/

namespace Desugar

namespace Ty

/-- The outermost constructor is a tuple. -/
def isTuple : Ty → Bool
  | tuple _ => true
  | _ => false

/-- A type occurs in another one: it is the type itself, or occurs in a part of it. -/
inductive Occurs (part : Ty) : Ty → Prop where
  | here : Occurs part part
  | array {element} (h : Occurs part element) : Occurs part (array element)
  | key {key value} (h : Occurs part key) : Occurs part (map key value)
  | value {key value} (h : Occurs part value) : Occurs part (map key value)
  | option {inner} (h : Occurs part inner) : Occurs part (option inner)
  | result {inner} (h : Occurs part inner) : Occurs part (result inner)
  | pointer {inner nillable} (h : Occurs part inner) : Occurs part (pointer inner nillable)
  | channel {inner direction} (h : Occurs part inner) : Occurs part (channel inner direction)
  | slot {slot slots} (hslot : slot ∈ slots) (h : Occurs part slot) : Occurs part (tuple slots)

/-- No result and no tuple occurs in the type. -/
def IsValue (t : Ty) : Prop := ∀ part, Occurs part t → part.isResult = false ∧ part.isTuple = false

/-- Decides whether a type is one of values. -/
def isValue : Ty → Bool
  | named _ => true
  | array inner | option inner | pointer inner _ | channel inner _ => inner.isValue
  | map key value => key.isValue && value.isValue
  | result _ | tuple _ => false

/-- What occurs in a type of values is one, too. -/
theorem isValue_of_occurs {part t : Ty} (hpart : Occurs part t) (h : t.isValue = true) :
    part.isValue = true := by
  induction hpart with
  | here => exact h
  | array _ ih | option _ ih | pointer _ ih | channel _ ih => exact ih h
  | key _ ih => exact ih (Bool.and_eq_true_iff.mp h).1
  | value _ ih => exact ih (Bool.and_eq_true_iff.mp h).2
  | result _ _ => cases h
  | slot _ _ _ => cases h

/-- A type in which no result and no tuple occurs is decided to be one of values, by recursion on
the type. -/
theorem isValue_of_forall : ∀ {t : Ty}, t.IsValue → t.isValue = true
  | named _, _ => rfl
  | array element, h => isValue_of_forall (t := element) fun part hpart => h part hpart.array
  | map key value, h => by
    have hkey : key.isValue = true := isValue_of_forall fun part hpart => h part hpart.key
    have hvalue : value.isValue = true := isValue_of_forall fun part hpart => h part hpart.value
    rw [isValue, hkey, hvalue, Bool.and_self]
  | option inner, h => isValue_of_forall (t := inner) fun part hpart => h part hpart.option
  | pointer inner _, h => isValue_of_forall (t := inner) fun part hpart => h part hpart.pointer
  | channel inner _, h => isValue_of_forall (t := inner) fun part hpart => h part hpart.channel
  | result _, h | tuple _, h => by
    have houter := h _ .here
    simp [isResult, isTuple] at houter

/-- The decision is right. -/
theorem isValue_iff {t : Ty} : t.isValue = true ↔ t.IsValue := by
  refine ⟨fun h part hpart => ?_, isValue_of_forall⟩
  have hvalue := isValue_of_occurs hpart h
  cases part with
  | result _ | tuple _ => cases hvalue
  | _ => exact ⟨rfl, rfl⟩

instance (t : Ty) : Decidable t.IsValue := decidable_of_iff _ isValue_iff

example : (map (named "string") (option (pointer (named "int") false))).IsValue := by decide

example : ¬ (array (option (tuple []))).IsValue := by decide

/-! ## Lowering -/

/-- A type has a lowered form exactly if it is one of values. -/
theorem isOk_lower (policy : OptionPolicy) : ∀ t : Ty, (t.lower policy).isOk = t.isValue
  | named _ => rfl
  | array element => by rw [lower, Emit.isOk_bind_ok, isOk_lower policy element, isValue]
  | map key value => by
    rw [lower, Emit.isOk_bind fun _ => Emit.isOk_bind_ok, isOk_lower policy key,
      isOk_lower policy value, isValue]
  | option inner => by
    -- either way of representing absence gives a type
    have hlast (u : Ty) : (if policy = .nilSentinel ∧ !inner.isOption ∧ u.isReferenceLike
        then Except.ok u else .ok (pointer u true) : Except Cause Ty).isOk = true := by
      split <;> rfl
    rw [lower, Emit.isOk_bind hlast, isOk_lower policy inner, Bool.and_true, isValue]
  | result _ => rfl
  | pointer inner _ => by rw [lower, Emit.isOk_bind_ok, isOk_lower policy inner, isValue]
  | channel inner _ => by rw [lower, Emit.isOk_bind_ok, isOk_lower policy inner, isValue]
  | tuple _ => rfl

/-- Among the types of values the base ones are the plain ones. -/
theorem isPlain_eq_isBase : ∀ {t : Ty}, t.isValue = true → t.isPlain = t.isBase
  | named _, _ => rfl
  | array element, h => isPlain_eq_isBase (t := element) h
  | map key value, h => by
    obtain ⟨hkey, hvalue⟩ := Bool.and_eq_true_iff.mp h
    rw [isPlain_map, isPlain_eq_isBase hkey, isPlain_eq_isBase hvalue, isBase]
  | option _, _ => rfl
  | pointer inner _, h => by rw [isPlain_pointer, isPlain_eq_isBase (t := inner) h, isBase]
  | channel inner _, h => isPlain_eq_isBase (t := inner) h

theorem isBase_of_isPlain {t : Ty} (h : t.isPlain = true) : t.isBase = true :=
  (Bool.and_eq_true_iff.mp h).1

/-- Plain types are types of values. -/
theorem isValue_of_isPlain (policy : OptionPolicy) {t : Ty} (h : t.isPlain = true) :
    t.isValue = true := by
  rw [← isOk_lower policy, lower_of_isPlain policy h]
  rfl

/-- A base type that has a lowered form is its own. -/
theorem eq_of_lower_of_isBase {policy : OptionPolicy} {t u : Ty} (h : t.lower policy = .ok u)
    (hbase : t.isBase = true) : u = t := by
  have hvalue : t.isValue = true := by
    rw [← isOk_lower policy, h]
    rfl
  have hplain : t.isPlain = true := (isPlain_eq_isBase hvalue).trans hbase
  exact Except.ok.inj (h.symm.trans (lower_of_isPlain policy hplain))

/-- The types of a list are lowered exactly if each of them is one of values. -/
theorem isOk_lowerList (policy : OptionPolicy) :
    ∀ ts : List Ty, (lowerList policy ts).isOk = ts.all isValue
  | [] => rfl
  | t :: ts => by
    rw [lowerList, Emit.isOk_bind fun _ => Emit.isOk_bind_ok, isOk_lower, isOk_lowerList policy ts,
      List.all_cons]

/-- Types are lowered position by position. -/
theorem forall₂_of_lowerList {policy : OptionPolicy} {ts us : List Ty}
    (h : lowerList policy ts = .ok us) :
    List.Forall₂ (fun t u => t.lower policy = .ok u) ts us := by
  induction ts generalizing us with
  | nil =>
    cases h
    exact .nil
  | cons t ts ih =>
    obtain ⟨u, hu, h⟩ := bind_eq_ok h
    obtain ⟨us, hus, h⟩ := bind_eq_ok h
    cases h
    exact .cons hu (ih hus)

/-- The type without its outer result. -/
def withoutResult : Ty → Ty
  | result inner => inner
  | t => t

end Ty

namespace ReturnShape

variable {policy : OptionPolicy} {returns : Option Ty} {shape : ReturnShape}

/-- The values that a return clause declares. -/
def declaredSlots (returns : Option Ty) : List Ty := returns.elim [] fun t => t.withoutResult.slots

/-- A return clause is split into the slots of the type without its result, and whether there is
one. -/
theorem split_eq (t : Ty) : split t = (t.withoutResult.slots, t.isResult) := by
  cases t <;> rfl

/-- Unless it nests two results, a clause has a shape if its declared values can be lowered. -/
theorem ofClause_some {t : Ty} (h : (t.isResult && t.withoutResult.isResult) = false) :
    ofClause policy (some t) = (Ty.lowerList policy t.withoutResult.slots >>= fun values =>
      .ok ⟨t.withoutResult.slots, values, t.isResult⟩) := by
  unfold ofClause
  split
  · contradiction
  · next heq =>
    cases heq
    cases h
  · next heq =>
    cases heq
    rw [split_eq]

/-- A result of a result declares a value that is a result. -/
theorem all_isValue_of_nested (policy : OptionPolicy) {t : Ty}
    (h : (t.isResult && t.withoutResult.isResult) = true) :
    t.withoutResult.slots.all Ty.isValue = false ∧ (ofClause policy (some t)).isOk = false := by
  match t with
  | .result (.result _) => exact ⟨rfl, rfl⟩

/-- A return clause has a shape exactly if the values it declares are types of values. -/
theorem isOk_ofClause (policy : OptionPolicy) (returns : Option Ty) :
    (ofClause policy returns).isOk = (declaredSlots returns).all Ty.isValue := by
  cases returns with
  | none => rfl
  | some t =>
    cases hnested : t.isResult && t.withoutResult.isResult with
    | true =>
      obtain ⟨hslots, hshape⟩ := all_isValue_of_nested policy hnested
      exact hshape.trans hslots.symm
    | false =>
      rw [ofClause_some hnested, Emit.isOk_bind_ok, Ty.isOk_lowerList]
      rfl

/-- The values of a shape are the declared ones, lowered in order. -/
theorem values_ofClause (h : ofClause policy returns = .ok shape) :
    List.Forall₂ (fun t u => t.lower policy = .ok u) (declaredSlots returns) shape.values := by
  cases returns with
  | none =>
    cases h
    exact .nil
  | some t =>
    cases hnested : t.isResult && t.withoutResult.isResult with
    | true =>
      obtain ⟨-, hshape⟩ := all_isValue_of_nested policy hnested
      rw [h] at hshape
      cases hshape
    | false =>
      rw [ofClause_some hnested] at h
      obtain ⟨values, hvalues, h⟩ := bind_eq_ok h
      cases h
      exact Ty.forall₂_of_lowerList hvalues

/-- A lowered clause is absent, a single type or a tuple, by the number of its slots. -/
theorem clause_eq (shape : ReturnShape) :
    (shape.slots = [] → shape.clause = none) ∧ (∀ t, shape.slots = [t] → shape.clause = some t) ∧
      (2 ≤ shape.slots.length → shape.clause = some (.tuple shape.slots)) := by
  unfold clause
  refine ⟨fun h => ?_, fun t h => ?_, fun h => ?_⟩
  · rw [h]
    rfl
  · rw [h]
    rfl
  · match hslots : shape.slots with
    | [] | [_] => simp [hslots] at h
    | _ :: _ :: _ => rfl

end ReturnShape

/-- **What can be lowered.** A type has a lowered form exactly if no result and no tuple occurs in
it. The lowered form is base, no tuple occurs in it, it can be written out, it is its own lowered
form, and a base type is its own. A return clause has a shape exactly if, without its outer result
and its outer tuple, it declares types of values only; the values of the shape are these types,
lowered in order, and the lowered clause has them and after them an error if the clause is a
result. -/
theorem lower_eq_ok_iff (policy : OptionPolicy) :
    (∀ t : Ty, ((∃ u, t.lower policy = .ok u) ↔ t.IsValue) ∧
      ∀ u, t.lower policy = .ok u →
        u.isBase = true ∧ (∀ part, Ty.Occurs part u → part.isTuple = false) ∧
        (∀ span, ∃ text, Emit.ty u span = .ok text) ∧ u.lower policy = .ok u ∧
        (t.isBase = true → u = t)) ∧
    ∀ returns : Option Ty,
      ((∃ shape, ReturnShape.ofClause policy returns = .ok shape) ↔
        ∀ slot ∈ ReturnShape.declaredSlots returns, slot.IsValue) ∧
      ∀ shape, ReturnShape.ofClause policy returns = .ok shape →
        List.Forall₂ (fun t u => t.lower policy = .ok u) (ReturnShape.declaredSlots returns)
          shape.values ∧
        shape.slots = shape.values ++ (if returns.any Ty.isResult then [Ty.error] else []) ∧
        (shape.slots = [] → shape.clause = none) ∧
        (∀ t, shape.slots = [t] → shape.clause = some t) ∧
        (2 ≤ shape.slots.length → shape.clause = some (.tuple shape.slots)) := by
  refine ⟨fun t => ⟨?_, fun u hu => ?_⟩, fun returns => ⟨?_, fun shape hshape => ?_⟩⟩
  · rw [← Emit.isOk_iff, Ty.isOk_lower, Ty.isValue_iff]
  · have hplain := Ty.isPlain_of_lower hu
    have hvalue := Ty.isValue_iff.mp (Ty.isValue_of_isPlain policy hplain)
    have htext (span : Span) : ∃ text, Emit.ty u span = .ok text := by
      rw [← Emit.isOk_iff, Emit.isOk_ty, hplain]
    exact ⟨Ty.isBase_of_isPlain hplain, fun part hpart => (hvalue part hpart).2, htext,
      Ty.lower_of_isPlain policy hplain, Ty.eq_of_lower_of_isBase hu⟩
  · rw [← Emit.isOk_iff, ReturnShape.isOk_ofClause, List.all_eq_true]
    simp only [Ty.isValue_iff]
  · have hslots : shape.slots =
        shape.values ++ (if returns.any Ty.isResult then [Ty.error] else []) := by
      rw [ReturnShape.slots, ReturnShape.isResult_eq_any hshape]
    exact ⟨ReturnShape.values_ofClause hshape, hslots, shape.clause_eq⟩

end Desugar
