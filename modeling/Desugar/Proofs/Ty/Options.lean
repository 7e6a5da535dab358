import Mathlib.Logic.Function.Iterate
import Desugar.Proofs.Ty.Lowering

/-!
# Nested options

The lowered form of an option must have room for a nil of its own. A pointer always has; a type
whose zero value is nil has one to spare, and with the policy `nilSentinel` an option of such a type
adds no pointer. But the lowered form of an option is itself such a type, and its nil is taken: so
an option of an option gets a pointer under either policy.

- `Ty.layers`: pointers around a type.
- `Ty.lower_option_of_isOption` and `Ty.lower_option_of_not_isOption`: one option.
- `Ty.lower_options`: any number of options, by induction on the number.
- `Ty.zero_of_isReferenceLike`: what is called reference-like has nil as its zero value.
-/

namespace Desugar.Ty

variable {policy : OptionPolicy} {t lowered : Ty}

/-! ### Layers of pointers -/

/-- The type under `n` pointers. -/
def layers (n : Nat) (t : Ty) : Ty := (pointer · true)^[n] t

/-- One more layer is a pointer around the others. -/
theorem layers_succ (n : Nat) (t : Ty) : layers (n + 1) t = pointer (layers n t) true :=
  Function.iterate_succ_apply' _ n t

/-- How many pointers a type begins with. -/
def pointerDepth : Ty → Nat
  | pointer inner _ => inner.pointerDepth + 1
  | _ => 0

/-- Pointer layers add to the pointers that a type begins with. -/
theorem pointerDepth_layers (n : Nat) (t : Ty) :
    (layers n t).pointerDepth = n + t.pointerDepth := by
  induction n with
  | zero => exact (Nat.zero_add _).symm
  | succ n ih =>
    rw [layers_succ, pointerDepth, ih]
    omega

/-- The number of layers can be told from the type. -/
theorem layers_injective (t : Ty) : Function.Injective (layers · t) := by
  intro m n h
  have hdepth : (layers m t).pointerDepth = (layers n t).pointerDepth := congrArg pointerDepth h
  rw [pointerDepth_layers, pointerDepth_layers] at hdepth
  omega

/-! ### Options -/

/-- The nil of an inner option is taken. -/
theorem lower_option_of_isOption (ht : t.isOption = true) (h : t.lower policy = .ok lowered) :
    (option t).lower policy = .ok (pointer lowered true) := by
  rw [lower, h]
  show (if _ then _ else _) = _
  rw [if_neg]
  rintro ⟨-, hno, -⟩
  rw [ht] at hno
  cases hno

/-- The nil of any other type can be had, if there is one. -/
theorem lower_option_of_not_isOption (ht : t.isOption = false) (h : t.lower policy = .ok lowered) :
    (option t).lower policy =
      .ok (layers (if policy = .nilSentinel ∧ lowered.isReferenceLike then 0 else 1) lowered) := by
  rw [lower, h]
  show (if _ then _ else _) = _
  by_cases hspare : policy = .nilSentinel ∧ lowered.isReferenceLike
  · rw [if_pos hspare, if_pos ⟨hspare.1, by rw [ht]; rfl, hspare.2⟩]
    rfl
  · rw [if_neg hspare, if_neg]
    · rfl
    · rintro ⟨hpolicy, -, href⟩
      exact hspare ⟨hpolicy, href⟩

/-- Every further option is one further pointer, whatever the first one became. -/
theorem lower_options (ht : t.isOption = false) (h : t.lower policy = .ok lowered) (n : Nat) :
    (option^[n + 1] t).lower policy = .ok (layers
      ((if policy = .nilSentinel ∧ lowered.isReferenceLike then 0 else 1) + n) lowered) := by
  induction n with
  | zero => exact lower_option_of_not_isOption ht h
  | succ n ih =>
    have hinner : (option^[n + 1] t).isOption = true := by
      rw [Function.iterate_succ_apply']
      rfl
    rw [Function.iterate_succ_apply', lower_option_of_isOption hinner ih, ← layers_succ,
      Nat.add_assoc]

/-! ### Zero values -/

/-- A type that is called reference-like has nil as its zero value. -/
theorem zero_of_isReferenceLike (isStruct : String → Bool) (h : t.isReferenceLike = true) :
    t.zero isStruct = Expr.nil := by
  cases t with
  | named name =>
    have hname : name ∈ nilNames := by simpa [isReferenceLike] using h
    simp only [nilNames, List.mem_cons, List.not_mem_nil, or_false] at hname
    obtain rfl | rfl | rfl := hname <;> rfl
  | result inner => cases h
  | tuple slots => cases h
  | _ => rfl

/-- A type under a pointer can be nil. -/
theorem isReferenceLike_layers {n : Nat} (h : n = 0 → t.isReferenceLike = true) :
    (layers n t).isReferenceLike = true := by
  cases n with
  | zero => exact h rfl
  | succ n =>
    rw [layers_succ]
    rfl

/-- **Nested options stay apart.** A type that is no option is put under `n` options. Its lowered
form is then under `n` pointers, or under `n - 1` if the policy lets it lend its own nil and it has
one. So different depths give different types, and at every depth the zero value is nil. -/
theorem lower_nested_option (settings : Settings) (isStruct : String → Bool)
    (ht : t.isOption = false) (h : t.lower settings.optionPolicy = .ok lowered) :
    (∀ n, 1 ≤ n → (option^[n] t).lower settings.optionPolicy = .ok (layers
      (if settings.optionPolicy = .nilSentinel ∧ lowered.isReferenceLike then n - 1 else n)
      lowered)) ∧
    (∀ m n, 1 ≤ m → 1 ≤ n →
      (option^[m] t).lower settings.optionPolicy = (option^[n] t).lower settings.optionPolicy →
      m = n) ∧
    ∀ n u, 1 ≤ n → (option^[n] t).lower settings.optionPolicy = .ok u →
      u.zero isStruct = Expr.nil := by
  refine ⟨?_, ?_, ?_⟩
  · intro n hn
    obtain ⟨n, rfl⟩ := Nat.exists_eq_add_of_le' hn
    rw [lower_options ht h]
    split
    · rw [Nat.zero_add, Nat.add_sub_cancel]
    · rw [Nat.add_comm]
  · intro m n hm hn hsame
    obtain ⟨m, rfl⟩ := Nat.exists_eq_add_of_le' hm
    obtain ⟨n, rfl⟩ := Nat.exists_eq_add_of_le' hn
    rw [lower_options ht h, lower_options ht h] at hsame
    have hlayers := layers_injective lowered (Except.ok.inj hsame)
    omega
  · intro n u hn hu
    obtain ⟨n, rfl⟩ := Nat.exists_eq_add_of_le' hn
    rw [lower_options ht h] at hu
    cases hu
    refine zero_of_isReferenceLike isStruct (isReferenceLike_layers fun hbare => ?_)
    -- Without a pointer the type lends its own nil.
    by_contra href
    rw [if_neg fun hspare => href hspare.2] at hbare
    omega

/-- A slice of options lends its nil to the first of three options around it. -/
theorem lower_nested_option_slice :
    (array (option (named "int"))).isOption = false ∧
      (array (option (named "int"))).lower .nilSentinel =
        .ok (array (pointer (named "int") true)) ∧
      (option (option (option (array (option (named "int")))))).lower .nilSentinel =
        .ok (pointer (pointer (array (pointer (named "int") true)) true) true) := by
  refine ⟨rfl, rfl, ?_⟩
  exact (lower_nested_option (t := array (option (named "int"))) {} (fun _ => false) rfl rfl).1 3
    (by decide)

end Desugar.Ty
