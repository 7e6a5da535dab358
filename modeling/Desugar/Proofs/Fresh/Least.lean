import Mathlib.Order.Bounds.Defs
import Desugar.Proofs.Pass.Draws

/-!
# Made-up names have the least number

What a supply gives to a sequence of requests, told without the supply. A request for a role starts
at the counter of the role, which is one past the number that the role got last, and goes up by one
as long as the name is taken: used from the beginning, or made up before, for whatever role. The
number it ends at is the least one that is possible.

- `Issue`: a name that was made up, with its role and its number; `Issue.counter`.
- `Seeks`: the loop of a request, without a bound on its turns.
- `NameSupply.isLeast_number`: one request.
- `NameSupply.freshList_least`: all requests of a sequence.
-/

namespace Desugar

/-! ### Requests -/

/-- A name that was made up: the role that it was asked for and the number that it got. -/
structure Issue where
  role : String
  number : Nat

namespace Issue

/-- The name itself. -/
def name (stem : String) (issue : Issue) : String := stem ++ issue.role ++ toString issue.number

/-- Where the next request for a role starts, after those that were made in this order. -/
def counter (issued : List Issue) (role : String) : Nat :=
  match issued.reverse.find? (·.role == role) with
  | some issue => issue.number + 1
  | none => 0

/-- A request moves the counter of its own role behind its number, and leaves the others. -/
theorem counter_append (issued : List Issue) (issue : Issue) (role : String) :
    counter (issued ++ [issue]) role =
      if issue.role = role then issue.number + 1 else counter issued role := by
  unfold counter
  rw [List.reverse_concat, List.find?_cons]
  by_cases h : issue.role = role
  · rw [if_pos h, beq_iff_eq.mpr h]
  · rw [if_neg h, beq_eq_false_iff_ne.mpr h]

end Issue

/-- The loop of a request: it looks at one number after another, from `start` on, and ends at the
first that is not taken. `tries` counts the numbers it looks at. -/
inductive Seeks (taken : Nat → Prop) : (start tries found : Nat) → Prop where
  | found {n : Nat} (h : ¬ taken n) : Seeks taken n 1 n
  | next {n tries m : Nat} (h : taken n) (hrest : Seeks taken (n + 1) tries m) :
    Seeks taken n (tries + 1) m

/-- The loop ends at the first number that is not taken, if there is one. -/
theorem Seeks.of_least {taken : Nat → Prop} {start : Nat} (gap : Nat)
    (htaken : ∀ i < gap, taken (start + i)) (hfree : ¬ taken (start + gap)) :
    Seeks taken start (gap + 1) (start + gap) := by
  induction gap generalizing start with
  | zero => exact .found hfree
  | succ gap ih =>
    have hshift (i : Nat) : start + (i + 1) = start + 1 + i := by omega
    rw [hshift] at hfree ⊢
    refine .next (htaken 0 (by omega)) (ih (fun i hi => ?_) hfree)
    rw [← hshift]
    exact htaken (i + 1) (by omega)

namespace NameSupply

variable (supply : NameSupply) (role : String)

/-! ### The bounded search -/

/-- The search starts at the counter. -/
theorem le_search (tries n : Nat) : n ≤ supply.search role tries n := by
  induction tries generalizing n with
  | zero => exact Nat.le_refl n
  | succ tries ih =>
    unfold search
    split
    · exact Nat.le_trans (Nat.le_succ n) (ih (n + 1))
    · exact Nat.le_refl n

/-- The search ends after as many tries as it is allowed. -/
theorem search_le (tries n : Nat) : supply.search role tries n ≤ n + tries := by
  induction tries generalizing n with
  | zero => exact Nat.le_refl n
  | succ tries ih =>
    unfold search
    split
    · have := ih (n + 1)
      omega
    · omega

/-- The search passes over used names only. -/
theorem mem_used_of_lt_search {tries n k : Nat} (hle : n ≤ k)
    (hlt : k < supply.search role tries n) : supply.candidate role k ∈ supply.used := by
  induction tries generalizing n with
  | zero => exact absurd hlt (Nat.not_lt.mpr hle)
  | succ tries ih =>
    unfold search at hlt
    split at hlt
    case isFalse hunused => exact absurd hlt (Nat.not_lt.mpr hle)
    case isTrue hused =>
      by_cases hk : n = k
      · subst hk
        simpa using hused
      · exact ih (by omega) hlt

/-- The number of the next name for a role. -/
def number : Nat := supply.search role supply.used.length (supply.count role)

/-- The made-up name is the one with the number that was found. -/
theorem fresh_eq_candidate : (supply.fresh role).1 = supply.candidate role (supply.number role) :=
  rfl

/-- The next name has the least number, from the count of its role on, whose name is unused. -/
theorem isLeast_number :
    IsLeast {n | supply.count role ≤ n ∧ supply.candidate role n ∉ supply.used}
      (supply.number role) := by
  refine ⟨⟨supply.le_search role _ _, supply.fresh_not_mem role⟩, ?_⟩
  rintro n ⟨hle, hunused⟩
  by_contra hlt
  exact hunused (supply.mem_used_of_lt_search role hle (Nat.lt_of_not_le hlt))

/-- The unbounded loop ends at the same number. It looks at one name more than are used, at
most. -/
theorem seeks_number : ∃ tries ≤ supply.used.length + 1,
    Seeks (supply.candidate role · ∈ supply.used) (supply.count role) tries
      (supply.number role) := by
  obtain ⟨gap, hgap⟩ := Nat.exists_eq_add_of_le (supply.isLeast_number role).1.1
  refine ⟨gap + 1, ?_, hgap ▸ .of_least gap (fun i hi => ?_) ?_⟩
  · have := supply.search_le role supply.used.length (supply.count role)
    unfold number at hgap
    omega
  · have hlt : supply.count role + i < supply.number role := by omega
    exact supply.mem_used_of_lt_search role (Nat.le_add_right _ i) hlt
  · rw [← hgap]
    exact supply.fresh_not_mem role

/-- A request moves the counter of its role behind the number that was found. -/
theorem count_fresh (other : String) :
    (supply.fresh role).2.count other =
      if role = other then supply.number role + 1 else supply.count other := by
  show (((role, supply.number role + 1) :: supply.counts).lookup other).getD 0 = _
  rw [List.lookup_cons]
  by_cases h : role = other
  · rw [if_pos h, beq_iff_eq.mpr h.symm]
    rfl
  · rw [if_neg h, beq_eq_false_iff_ne.mpr (Ne.symm h)]
    rfl

/-! ### Sequences of requests -/

/-- The supply is what is left after names were made up, in this order. -/
structure After (stem : String) (used : List String) (issued : List Issue) (supply : NameSupply) :
    Prop where
  used : supply.used = (issued.map (Issue.name stem)).reverse ++ used
  stem : supply.stem = stem
  count : ∀ role, supply.count role = Issue.counter issued role

variable {supply role} {stem : String} {used : List String} {issued : List Issue}

/-- At first nothing has been made up. -/
theorem After.start (stem : String) (used : List String) :
    After stem used [] (avoiding stem used) := ⟨rfl, rfl, fun _ => rfl⟩

/-- The names that are tried are those of the issues. -/
theorem After.candidate (h : After stem used issued supply) (role : String) (n : Nat) :
    supply.candidate role n = Issue.name stem ⟨role, n⟩ := by
  rw [NameSupply.candidate, h.stem, Issue.name]

/-- The names that are avoided are those of the start and those that were made up. -/
theorem After.mem_used (h : After stem used issued supply) (x : String) :
    x ∈ supply.used ↔ x ∈ used ++ issued.map (Issue.name stem) := by
  rw [h.used, List.mem_append, List.mem_append, List.mem_reverse, or_comm]

/-- A request adds one issue. -/
theorem After.fresh (h : After stem used issued supply) (role : String) :
    After stem used (issued ++ [⟨role, supply.number role⟩]) (supply.fresh role).2 := by
  refine ⟨?_, h.stem, fun other => ?_⟩
  · show (supply.fresh role).1 :: supply.used = _
    rw [fresh_eq_candidate, h.candidate, h.used, List.map_append, List.reverse_append]
    rfl
  · rw [count_fresh, Issue.counter_append, h.count]

/-- What a request promises after the names that were made up before it: its number is the least,
from the counter of the role on, whose name is neither used nor made up, and the loop ends at it
after no more tries than there are names to avoid and one. -/
structure IsNext (stem : String) (used : List String) (issued : List Issue) (issue : Issue) :
    Prop where
  least : IsLeast
    {n | Issue.counter issued issue.role ≤ n ∧
      Issue.name stem ⟨issue.role, n⟩ ∉ used ++ issued.map (Issue.name stem)}
    issue.number
  ends : ∃ tries ≤ used.length + issued.length + 1,
    Seeks (fun n => Issue.name stem ⟨issue.role, n⟩ ∈ used ++ issued.map (Issue.name stem))
      (Issue.counter issued issue.role) tries issue.number

/-- The number that is found is the one that a request promises. -/
theorem After.isNext (h : After stem used issued supply) (role : String) :
    IsNext stem used issued ⟨role, supply.number role⟩ := by
  have hleast := supply.isLeast_number role
  obtain ⟨tries, htries, hseeks⟩ := supply.seeks_number role
  simp only [h.candidate, h.mem_used, h.count] at hleast hseeks
  refine ⟨hleast, tries, ?_, hseeks⟩
  rw [h.used, List.length_append, List.length_reverse, List.length_map] at htries
  omega

/-- Every name of a sequence is made up as its own request promises, after those before it. -/
theorem After.freshList (h : After stem used issued supply) (roles : List String) :
    ∃ new : List Issue, new.map Issue.role = roles ∧
      (supply.freshList roles).1 = new.map (Issue.name stem) ∧
      ∀ before issue after, new = before ++ issue :: after →
        IsNext stem used (issued ++ before) issue := by
  induction roles generalizing supply issued with
  | nil =>
    refine ⟨[], rfl, rfl, ?_⟩
    intro before issue after hnil
    simp at hnil
  | cons role roles ih =>
    obtain ⟨new, hroles, hnames, hnext⟩ := ih (h.fresh role)
    refine ⟨⟨role, supply.number role⟩ :: new, by rw [List.map_cons, hroles], ?_, ?_⟩
    · show (supply.fresh role).1 :: ((supply.fresh role).2.freshList roles).1 = _
      rw [hnames, fresh_eq_candidate, h.candidate, List.map_cons]
    · intro before issue after hsplit
      cases before with
      | nil =>
        obtain ⟨rfl, -⟩ := List.cons_eq_cons.mp hsplit
        rw [List.append_nil]
        exact h.isNext role
      | cons first before =>
        obtain ⟨rfl, htail⟩ := List.cons_eq_cons.mp hsplit
        have hlater := hnext before issue after htail
        rwa [List.append_assoc] at hlater

/-- **Made-up names are new, distinct and least.** A supply that avoids the names `used` is asked
for a name for each of several roles. The names it gives are pairwise distinct, also across roles,
and none of them was used; and each request is answered as `IsNext` promises. -/
theorem freshList_least (stem : String) (used roles : List String) :
    ∃ issued : List Issue, issued.map Issue.role = roles ∧
      ((avoiding stem used).freshList roles).1 = issued.map (Issue.name stem) ∧
      (issued.map (Issue.name stem)).Nodup ∧ (∀ x ∈ issued.map (Issue.name stem), x ∉ used) ∧
      ∀ before issue after, issued = before ++ issue :: after →
        IsNext stem used before issue := by
  obtain ⟨issued, hroles, hnames, hnext⟩ := (After.start stem used).freshList roles
  have hdraws := Draws.freshList (avoiding stem used) roles
  rw [hnames] at hdraws
  exact ⟨issued, hroles, hnames, hdraws.nodup, hdraws.new, hnext⟩

/-- The role `Val1` comes upon a name that was made up for `Val`, and `Val` upon a used one. -/
example :
    ((avoiding "gx" ["gxVal0", "gxVal2"]).freshList ["Val1", "Val", "Val", "Err"]).1 =
      ["gxVal10", "gxVal1", "gxVal3", "gxErr0"] := by
  rfl

end NameSupply

end Desugar
