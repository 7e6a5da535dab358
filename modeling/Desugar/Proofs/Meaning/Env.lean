import Mathlib.Data.List.Basic

/-!
# Local variables

The variables in scope at a place of a function, innermost first. A declaration adds a variable, an
assignment changes the innermost variable of a name, and at the end of a block the variables that
were declared in it are dropped. The blank name declares nothing.

- `Env.get?`, `Env.declare` and `Env.set` are the operations on one variable, and `Env.restore`
  ends a block.
- `Env.Alike` relates environments that look the same to code which mentions visible names only.
- `Env.Grows` says that hidden variables were declared, and `Env.Under` that only declarations and
  assignments were made.
- `Env.Free` says that names which stand for something global are not hidden by variables.
-/

namespace Desugar

/-- The variables in scope, innermost first. -/
abbrev Env (V : Type) := List (String × V)

namespace Env

variable {V : Type}

/-- The value of a variable. -/
def get? : Env V → String → Option V
  | [], _ => none
  | (y, v) :: ρ, x => if y = x then some v else get? ρ x

/-- Declares a variable. -/
def declare (ρ : Env V) (x : String) (v : V) : Env V := if x = "_" then ρ else (x, v) :: ρ

/-- Changes the innermost variable of a name, if there is one. -/
def set : Env V → String → V → Env V
  | [], _, _ => []
  | (y, u) :: ρ, x, v => if y = x then (y, v) :: ρ else (y, u) :: set ρ x v

/-- Drops the variables that were declared since the environment was `ρ`. -/
def restore (ρ later : Env V) : Env V := later.drop (later.length - ρ.length)

/-- The variables with visible names. -/
def view (visible : List String) (ρ : Env V) : Env V := ρ.filter fun entry => entry.1 ∈ visible

/-- The environments have the same visible variables. -/
def Alike (visible : List String) (ρ ρ' : Env V) : Prop := ρ.view visible = ρ'.view visible

/-- The second environment is the first with variables added in front. -/
def Under (ρ later : Env V) : Prop := ρ.map Prod.fst <:+ later.map Prod.fst

/-- The second environment is the first with variables added in front whose names are not
avoided. -/
inductive Grows (avoid : String → Prop) (ρ : Env V) : Env V → Prop
  | refl : Grows avoid ρ ρ
  | declare {later : Env V} {x : String} (v : V) :
    Grows avoid ρ later → ¬ avoid x → Grows avoid ρ ((x, v) :: later)

/-- No variable has one of the names. -/
def Free (names : List String) (ρ : Env V) : Prop := ∀ x ∈ names, x ∉ ρ.map Prod.fst

section Names

variable (ρ : Env V) (x : String) (v : V)

@[simp] theorem names_set : (ρ.set x v).map Prod.fst = ρ.map Prod.fst := by
  induction ρ with
  | nil => rfl
  | cons entry ρ ih =>
    obtain ⟨y, u⟩ := entry
    by_cases h : y = x <;> simp [set, h, ih]

theorem declare_of_ne {x : String} (h : x ≠ "_") : ρ.declare x v = (x, v) :: ρ := by
  simp [declare, h]

/-- A name that no variable has stands for no variable. -/
theorem get?_eq_none {ρ : Env V} {x : String} (h : x ∉ ρ.map Prod.fst) : ρ.get? x = none := by
  induction ρ with
  | nil => rfl
  | cons entry ρ ih =>
    obtain ⟨y, u⟩ := entry
    obtain ⟨hne, hrest⟩ : x ≠ y ∧ x ∉ ρ.map Prod.fst := by simpa using h
    rw [get?, if_neg hne.symm, ih hrest]

end Names

namespace Under

variable {ρ ρ₁ ρ₂ : Env V}

protected theorem refl (ρ : Env V) : Under ρ ρ := List.suffix_refl _

/-- Variables that are added later are added in front. -/
theorem trans (h : Under ρ ρ₁) (h' : Under ρ₁ ρ₂) : Under ρ ρ₂ := List.IsSuffix.trans h h'

/-- A declaration adds at most one variable in front. -/
theorem declare (h : Under ρ ρ₁) (x : String) (v : V) : Under ρ (ρ₁.declare x v) := by
  unfold Env.declare
  split
  · exact h
  · exact h.trans (List.suffix_cons x _)

/-- An assignment adds no variable. -/
theorem set (h : Under ρ ρ₁) (x : String) (v : V) : Under ρ (ρ₁.set x v) := by
  simpa [Under] using h

/-- What a block leaves behind has the variables from before the block. -/
theorem names_restore (h : Under ρ ρ₁) : (ρ.restore ρ₁).map Prod.fst = ρ.map Prod.fst := by
  have hlength : (ρ₁.map Prod.fst).length - (ρ.map Prod.fst).length = ρ₁.length - ρ.length := by
    simp
  rw [restore, List.map_drop, ← hlength]
  exact (List.suffix_iff_eq_drop.mp h).symm

/-- Leaving a block drops the variables that were added in it, and no others. -/
theorem restore (h : Under ρ ρ₁) : Under ρ (ρ.restore ρ₁) := ⟨[], h.names_restore.symm⟩

end Under

namespace Alike

variable {visible : List String} {ρ ρ' ρ₁ ρ₁' : Env V}

protected theorem refl (ρ : Env V) : Alike visible ρ ρ := rfl

/-- Looking the same is passed on. -/
theorem trans (h : Alike visible ρ ρ') (h' : Alike visible ρ' ρ₁) : Alike visible ρ ρ₁ :=
  Eq.trans h h'

/-- A visible variable has the same value in the view. -/
theorem get?_view {x : String} (hx : x ∈ visible) (ρ : Env V) :
    (ρ.view visible).get? x = ρ.get? x := by
  induction ρ with
  | nil => rfl
  | cons entry ρ ih =>
    obtain ⟨y, u⟩ := entry
    unfold view at ih ⊢
    by_cases hy : y ∈ visible
    · simp [hy, get?, ih]
    · have hne : y ≠ x := fun h => hy (h ▸ hx)
      simp [hy, get?, ih, hne]

/-- Environments that look the same agree on visible names. -/
theorem get? (h : Alike visible ρ ρ') {x : String} (hx : x ∈ visible) : ρ.get? x = ρ'.get? x := by
  rw [← get?_view hx ρ, ← get?_view hx ρ', h]

/-- A declaration in both environments keeps them alike. -/
theorem declare (h : Alike visible ρ ρ') (x : String) (v : V) :
    Alike visible (ρ.declare x v) (ρ'.declare x v) := by
  unfold Env.declare
  split
  · exact h
  · have h : List.filter _ ρ = List.filter _ ρ' := h
    simp [Alike, view, List.filter_cons, h]

/-- An assignment is seen if the name is visible. -/
theorem view_set (ρ : Env V) (x : String) (v : V) :
    (ρ.set x v).view visible =
      if x ∈ visible then (ρ.view visible).set x v else ρ.view visible := by
  induction ρ with
  | nil => simp [Env.set, view]
  | cons entry ρ ih =>
    obtain ⟨y, u⟩ := entry
    unfold view at ih ⊢
    by_cases hy : y = x
    · subst hy
      by_cases hv : y ∈ visible <;> simp [Env.set, hv]
    · by_cases hx : x ∈ visible <;> by_cases hv : y ∈ visible <;>
        simp_all [Env.set]

/-- An assignment in both environments keeps them alike. -/
theorem set (h : Alike visible ρ ρ') (x : String) (v : V) :
    Alike visible (ρ.set x v) (ρ'.set x v) := by
  rw [Alike, view_set, view_set, h]

/-- An assignment to a hidden name is not seen. -/
theorem set_hidden {x : String} (hx : x ∉ visible) (ρ : Env V) (v : V) :
    Alike visible ρ (ρ.set x v) := by
  rw [Alike, view_set, if_neg hx]

/-- A declaration of a hidden name is not seen. -/
theorem declare_hidden {x : String} (hx : x ∉ visible) (ρ : Env V) (v : V) :
    Alike visible ρ (ρ.declare x v) := by
  unfold Env.declare
  split
  · rfl
  · simp [Alike, view, hx]

/-- The visible variables at the end of a block: those it declared, then those from before. -/
theorem view_append_restore (ρ ρ₁ : Env V) :
    view visible (ρ₁.take (ρ₁.length - ρ.length)) ++ (ρ.restore ρ₁).view visible =
      ρ₁.view visible := by
  rw [view, view, view, Env.restore, ← List.filter_append, List.take_append_drop]

/-- Leaving a block brings the number of visible variables back. -/
theorem length_view_restore (hu : Under ρ ρ₁) :
    ((ρ.restore ρ₁).view visible).length = (ρ.view visible).length := by
  have hnames : ∀ τ : Env V,
      (τ.view visible).length = ((τ.map Prod.fst).filter (· ∈ visible)).length := by
    intro τ
    rw [List.filter_map, List.length_map]
    rfl
  rw [hnames, hnames, hu.names_restore]

/-- Environments that look the same before and at the end of a block look the same after it. -/
theorem restore (h : Alike visible ρ ρ') (h₁ : Alike visible ρ₁ ρ₁') (hu : Under ρ ρ₁)
    (hu' : Under ρ' ρ₁') : Alike visible (ρ.restore ρ₁) (ρ'.restore ρ₁') := by
  have happend := calc
    view visible (ρ₁.take (ρ₁.length - ρ.length)) ++ (ρ.restore ρ₁).view visible
    _ = ρ₁.view visible := view_append_restore ρ ρ₁
    _ = ρ₁'.view visible := h₁
    _ = view visible (ρ₁'.take (ρ₁'.length - ρ'.length)) ++ (ρ'.restore ρ₁').view visible :=
      (view_append_restore ρ' ρ₁').symm
  refine (List.append_inj' happend ?_).2
  rw [length_view_restore hu, length_view_restore hu', h]

end Alike

namespace Grows

variable {avoid avoid' : String → Prop} {ρ ρ₁ ρ₂ : Env V}

theorem trans (h : Grows avoid ρ ρ₁) (h' : Grows avoid ρ₁ ρ₂) : Grows avoid ρ ρ₂ := by
  induction h' with
  | refl => exact h
  | declare v _ hx ih => exact .declare v ih hx

theorem mono (h : Grows avoid' ρ ρ₁) (himp : ∀ x, avoid x → avoid' x) : Grows avoid ρ ρ₁ := by
  induction h with
  | refl => exact .refl
  | declare v _ hx ih => exact .declare v ih fun h => hx (himp _ h)

/-- Variables that are added hide no name that is avoided. -/
theorem get? (h : Grows avoid ρ ρ₁) {x : String} (hx : avoid x) : ρ₁.get? x = ρ.get? x := by
  induction h with
  | refl => rfl
  | @declare later y v _ hy ih =>
    have hne : y ≠ x := fun h => hy (h ▸ hx)
    simpa [Env.get?, hne] using ih

/-- Added variables are not seen if all visible names are avoided. -/
theorem alike {visible : List String} (h : Grows avoid ρ ρ₁) (hv : ∀ x ∈ visible, avoid x) :
    Alike visible ρ ρ₁ := by
  induction h with
  | refl => rfl
  | @declare later y v _ hy ih =>
    have hy : y ∉ visible := fun h => hy (hv y h)
    simpa [Alike, view, hy] using ih

/-- An environment that grows has its new variables in front. -/
theorem under (h : Grows avoid ρ ρ₁) : Under ρ ρ₁ := by
  induction h with
  | refl => exact .refl _
  | @declare later x v _ _ ih => exact ih.trans (List.suffix_cons x _)

/-- An assignment to an avoided name changes the variables below the added ones. -/
theorem set (h : Grows avoid ρ ρ₁) {x : String} (hx : avoid x) (v : V) :
    Grows avoid (ρ.set x v) (ρ₁.set x v) := by
  induction h with
  | refl => exact .refl
  | @declare later y u _ hy ih =>
    have hne : y ≠ x := fun h => hy (h ▸ hx)
    simpa [Env.set, hne] using Grows.declare u ih hy

/-- A block drops what it added. -/
theorem restore (h : Grows avoid ρ ρ₁) {σ : Env V} (hσ : σ.length = ρ.length) :
    Env.restore σ ρ₁ = ρ := by
  induction h with
  | refl => simp [Env.restore, hσ]
  | @declare later x v h _ ih =>
    have hle : ρ.length ≤ later.length := by simpa using h.under.length_le
    have hlen : later.length + 1 - ρ.length = later.length - ρ.length + 1 := by omega
    simpa [Env.restore, hσ, hlen] using ih

end Grows

namespace Free

variable {names visible : List String} {ρ ρ₁ : Env V}

/-- A name that is free stands for no variable. -/
theorem get? (h : Free names ρ) {x : String} (hx : x ∈ names) : ρ.get? x = none :=
  get?_eq_none (h x hx)

/-- Declaring another name keeps names free. -/
theorem declare (h : Free names ρ) {x : String} (hx : x ∉ names) (v : V) :
    Free names (ρ.declare x v) := by
  intro y hy
  have hne : y ≠ x := fun heq => hx (heq ▸ hy)
  unfold Env.declare
  split
  · exact h y hy
  · simpa [hne] using h y hy

/-- Assignments keep names free. -/
theorem set (h : Free names ρ) (x : String) (v : V) : Free names (ρ.set x v) := by
  intro y hy
  rw [names_set]
  exact h y hy

/-- Leaving a block keeps names free. -/
theorem restore (h : Free names ρ) (hu : Under ρ ρ₁) : Free names (ρ.restore ρ₁) := by
  intro y hy
  rw [hu.names_restore]
  exact h y hy

/-- Visible names that are free in one environment are so in one that looks the same. -/
theorem of_alike (h : Free names ρ) (halike : Alike visible ρ ρ₁)
    (hvisible : ∀ x ∈ names, x ∈ visible) : Free names ρ₁ := by
  intro x hx hmem
  obtain ⟨entry, hentry, rfl⟩ := List.mem_map.mp hmem
  have hview : entry ∈ ρ.view visible := by
    rw [halike]
    exact List.mem_filter.mpr ⟨hentry, by simpa using hvisible _ hx⟩
  exact h _ hx (List.mem_map_of_mem (List.mem_filter.mp hview).1)

end Free

end Env

end Desugar
