import Desugar.Ty.Lowering

/-!
# Lowered types are types of values

A type is plain if it is base and no tuple occurs in it, which is what a value of the base language
can have. Lowering a type gives a plain type or fails.

- `Ty.isPlain_of_lower`: a lowered type is plain.
- `Ty.lower_of_isPlain`: a plain type is its own lowered form.
- `ReturnShape.all_isPlain_values`: the values of a return clause are plain.
- `ReturnShape.isResult_clause`: a lowered return clause is no result.
-/

namespace Desugar

theorem bind_eq_ok {ε α β : Type} {x : Except ε α} {f : α → Except ε β} {b : β}
    (h : x >>= f = .ok b) : ∃ a, x = .ok a ∧ f a = .ok b := by
  cases x with
  | error e => cases h
  | ok a => exact ⟨a, rfl, h⟩

namespace Ty

/-- A tuple occurs in the type. -/
def hasTuple : Ty → Bool
  | named _ => false
  | array inner | option inner | result inner | pointer inner _ | channel inner _ => inner.hasTuple
  | map key value => key.hasTuple || value.hasTuple
  | tuple _ => true

/-- The type is base and no tuple occurs in it. -/
def isPlain (t : Ty) : Bool := t.isBase && !t.hasTuple

@[simp] theorem isPlain_named (name : String) : (named name).isPlain = true := rfl

@[simp] theorem isPlain_array (t : Ty) : (array t).isPlain = t.isPlain := rfl

@[simp] theorem isPlain_channel (t : Ty) (d : Direction) : (channel t d).isPlain = t.isPlain := rfl

@[simp] theorem isPlain_pointer (t : Ty) (nillable : Bool) :
    (pointer t nillable).isPlain = (nillable && t.isPlain) := by
  simp [isPlain, isBase, hasTuple, Bool.and_assoc]

@[simp] theorem isPlain_map (k v : Ty) : (map k v).isPlain = (k.isPlain && v.isPlain) := by
  simp only [isPlain, isBase, hasTuple, Bool.not_or]
  ac_rfl

/-- A lowered type is plain. -/
theorem isPlain_of_lower {policy : OptionPolicy} :
    ∀ {t t' : Ty}, t.lower policy = .ok t' → t'.isPlain = true
  | named name, _, h => by
    cases h
    rfl
  | array element, _, h => by
    obtain ⟨inner, hinner, h⟩ := bind_eq_ok h
    cases h
    simpa using isPlain_of_lower hinner
  | map key value, _, h => by
    obtain ⟨k, hk, h⟩ := bind_eq_ok h
    obtain ⟨v, hv, h⟩ := bind_eq_ok h
    cases h
    simp [isPlain_of_lower hk, isPlain_of_lower hv]
  | option inner, _, h => by
    obtain ⟨lowered, hlowered, h⟩ := bind_eq_ok h
    split at h
    all_goals
      cases h
      simpa using isPlain_of_lower hlowered
  | result _, _, h => by cases h
  | pointer inner _, _, h => by
    obtain ⟨lowered, hlowered, h⟩ := bind_eq_ok h
    cases h
    simpa using isPlain_of_lower hlowered
  | channel inner _, _, h => by
    obtain ⟨lowered, hlowered, h⟩ := bind_eq_ok h
    cases h
    simpa using isPlain_of_lower hlowered
  | tuple _, _, h => by cases h

/-- Types are lowered to plain ones. -/
theorem all_isPlain_of_lowerList {policy : OptionPolicy} :
    ∀ {ts ts' : List Ty}, lowerList policy ts = .ok ts' → ∀ t ∈ ts', t.isPlain = true
  | [], _, h => by
    cases h
    simp
  | t :: ts, _, h => by
    obtain ⟨t', ht, h⟩ := bind_eq_ok h
    obtain ⟨ts', hts, h⟩ := bind_eq_ok h
    cases h
    simpa using ⟨isPlain_of_lower ht, all_isPlain_of_lowerList hts⟩

/-- A plain type is no result. -/
theorem isResult_of_isPlain {t : Ty} (h : t.isPlain = true) : t.isResult = false := by
  cases t with
  | result inner => cases h
  | _ => rfl

/-- A plain type is not marked as one that is never nil. -/
theorem isNonNillable_of_isPlain {t : Ty} (h : t.isPlain = true) : t.isNonNillable = false := by
  cases t with
  | pointer inner nillable =>
    rw [isPlain_pointer, Bool.and_eq_true] at h
    rw [isNonNillable, h.1]
    rfl
  | _ => rfl

/-- A plain type is its own lowered form. -/
theorem lower_of_isPlain (policy : OptionPolicy) :
    ∀ {t : Ty}, t.isPlain = true → t.lower policy = .ok t
  | named _, _ => rfl
  | array element, h => by
    rw [isPlain_array] at h
    rw [lower, lower_of_isPlain policy h]
    rfl
  | map key value, h => by
    rw [isPlain_map, Bool.and_eq_true] at h
    rw [lower, lower_of_isPlain policy h.1, lower_of_isPlain policy h.2]
    rfl
  | option _, h => by cases h
  | result _, h => by cases h
  | pointer inner nillable, h => by
    rw [isPlain_pointer, Bool.and_eq_true] at h
    obtain ⟨rfl, h⟩ := h
    rw [lower, lower_of_isPlain policy h]
    rfl
  | channel inner _, h => by
    rw [isPlain_channel] at h
    rw [lower, lower_of_isPlain policy h]
    rfl
  | tuple slots, h => by simp [isPlain, hasTuple] at h

/-- Plain types are lowered to themselves. -/
theorem lowerList_of_isPlain (policy : OptionPolicy) {ts : List Ty}
    (h : ∀ t ∈ ts, t.isPlain = true) : lowerList policy ts = .ok ts := by
  induction ts with
  | nil => rfl
  | cons t ts ih =>
    obtain ⟨ht, hts⟩ := List.forall_mem_cons.mp h
    rw [lowerList, lower_of_isPlain policy ht, ih hts]
    rfl

end Ty

namespace ReturnShape

variable {policy : OptionPolicy} {returns : Option Ty} {shape : ReturnShape}

/-- The values of a return clause are plain. -/
theorem all_isPlain_values (h : ofClause policy returns = .ok shape) :
    ∀ t ∈ shape.values, t.isPlain = true := by
  unfold ofClause at h
  split at h
  · cases h
    simp
  · cases h
  · obtain ⟨values, hvalues, h⟩ := bind_eq_ok h
    cases h
    exact Ty.all_isPlain_of_lowerList hvalues

/-- With the error of a result, too, plain values make plain slots. -/
theorem all_isPlain_slots (h : ∀ t ∈ shape.values, t.isPlain = true) :
    ∀ t ∈ shape.slots, t.isPlain = true := by
  intro t ht
  rcases List.mem_append.mp ht with ht | ht
  · exact h t ht
  · split at ht
    · obtain rfl := List.mem_singleton.mp ht
      rfl
    · cases ht

/-- A lowered return clause is no result. -/
theorem isResult_clause (h : ∀ t ∈ shape.values, t.isPlain = true) :
    ∀ t ∈ shape.clause, t.isResult = false := by
  have hslots := all_isPlain_slots h
  unfold clause
  match shape.slots, hslots with
  | [], _ => simp [Ty.clauseOfSlots]
  | [t], hslots =>
    rintro _ ⟨⟩
    exact Ty.isResult_of_isPlain (hslots t (by simp))
  | _ :: _ :: _, _ =>
    rintro _ ⟨⟩
    rfl

/-- The results have the shape of a result. -/
theorem isResult_eq_any (h : ofClause policy returns = .ok shape) :
    shape.isResult = returns.any Ty.isResult := by
  unfold ofClause at h
  split at h
  · cases h
    rfl
  · cases h
  · rename_i t _
    obtain ⟨values, -, h⟩ := bind_eq_ok h
    cases h
    cases t <;> rfl

/-- Only a result has the shape of a result. -/
theorem isResult_ofClause (h : ofClause policy returns = .ok shape)
    (hreturns : ∀ t ∈ returns, t.isResult = false) : shape.isResult = false := by
  rw [isResult_eq_any h]
  cases returns with
  | none => rfl
  | some t => exact hreturns t rfl

end ReturnShape

end Desugar
