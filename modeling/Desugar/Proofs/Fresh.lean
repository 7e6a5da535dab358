import Mathlib.Data.List.Nodup
import Mathlib.Data.List.Perm.Subperm
import Desugar.Fresh

/-!
# Made-up names are new

The search for a number is bounded by the number of used names, and candidates with different
numbers differ. So by counting it always ends at an unused name.

- `NameSupply.fresh_not_mem`: a made-up name was not used before.
- `NameSupply.Advances`: a supply that names were taken from avoids at least the same names.
- `NameSupply.Offers`: the names that a supply can still give for a role.
- `NameSupply.candidate_ne`: made-up names end in a digit, so they differ from fixed words.
-/

namespace Desugar.NameSupply

variable (supply : NameSupply) (role : String)

/-- A number is written with decimal digits. -/
theorem toList_toString (n : Nat) : (toString n).toList = Nat.toDigits 10 n := by
  rw [Nat.toString_eq_ofList_toDigits, String.toList_ofList]

/-- Different numbers give different names. -/
theorem candidate_injective : Function.Injective (supply.candidate role) := by
  intro m n h
  have h : supply.stem ++ role ++ toString m = supply.stem ++ role ++ toString n := h
  have h : (toString m).toList = (toString n).toList := by
    simpa using congrArg String.toList h
  rw [toList_toString, toList_toString] at h
  calc
    m = Nat.ofDigitChars 10 (Nat.toDigits 10 m) 0 := Nat.ofDigitChars_ten_toDigits.symm
    _ = n := by rw [h, Nat.ofDigitChars_ten_toDigits]

/-- If the search ends at a used name, then all candidates that it tried are used. -/
theorem mem_used_of_search {tries n : Nat}
    (h : supply.candidate role (supply.search role tries n) ∈ supply.used) :
    ∀ i ≤ tries, supply.candidate role (n + i) ∈ supply.used := by
  induction tries generalizing n with
  | zero =>
    intro i hi
    obtain rfl : i = 0 := by omega
    exact h
  | succ tries ih =>
    unfold search at h
    split at h
    case isFalse hunused => exact absurd (by simpa using h) (by simpa using hunused)
    case isTrue hused =>
      intro i hi
      cases i with
      | zero => simpa using hused
      | succ i =>
        have hn : n + 1 + i = n + (i + 1) := by omega
        exact hn ▸ ih h i (by omega)

/-- A made-up name was not used before. -/
theorem fresh_not_mem : (supply.fresh role).1 ∉ supply.used := by
  intro h
  -- More candidates than used names would be used.
  let start := supply.count role
  have hall := supply.mem_used_of_search role (n := start) h
  let tried := (List.range (supply.used.length + 1)).map fun i => supply.candidate role (start + i)
  have hnodup : tried.Nodup := by
    refine List.Nodup.map (fun i j hij => ?_) List.nodup_range
    have := supply.candidate_injective role hij
    omega
  have hsubset : tried ⊆ supply.used := by
    intro x hx
    obtain ⟨i, hi, rfl⟩ := List.mem_map.mp hx
    exact hall i (by have := List.mem_range.mp hi; omega)
  have hlength := (hnodup.subperm hsubset).length_le
  simp only [tried, List.length_map, List.length_range] at hlength
  omega

/-- A made-up name ends in a digit. -/
theorem getLast?_candidate (n : Nat) :
    ∃ c, (supply.candidate role n).toList.getLast? = some c ∧ c.isDigit := by
  have hne : Nat.toDigits 10 n ≠ [] := Nat.toDigits_ne_nil
  refine ⟨(Nat.toDigits 10 n).getLast hne, ?_, ?_⟩
  · have htext : (supply.candidate role n).toList =
        (supply.stem ++ role).toList ++ Nat.toDigits 10 n := by
      rw [candidate, String.toList_append, toList_toString]
    rw [htext, List.getLast?_append, List.getLast?_eq_some_getLast hne]
    rfl
  · exact Nat.isDigit_of_mem_toDigits (by decide) (by decide) (List.getLast_mem hne)

/-- A made-up name ends in a digit, so it is no word that does not. -/
theorem candidate_ne (n : Nat) {word : String}
    (h : word.toList.getLast?.any Char.isDigit = false) : supply.candidate role n ≠ word := by
  rintro rfl
  obtain ⟨c, hlast, hdigit⟩ := supply.getLast?_candidate role n
  simp [hlast, hdigit] at h

/-- The second supply avoids at least the names that the first one avoids. -/
structure Advances (first second : NameSupply) : Prop where
  stem : second.stem = first.stem
  used : first.used ⊆ second.used

namespace Advances

variable {first second third : NameSupply}

protected theorem refl (first : NameSupply) : Advances first first := ⟨rfl, List.Subset.refl _⟩

/-- What is avoided goes on being avoided. -/
theorem trans (h : Advances first second) (h' : Advances second third) : Advances first third :=
  ⟨h'.stem.trans h.stem, List.Subset.trans h.used h'.used⟩

end Advances

/-- A request adds to the names that are avoided. -/
theorem advances_fresh : Advances supply (supply.fresh role).2 :=
  ⟨rfl, List.subset_cons_self _ _⟩

/-- A name is avoided once it has been made up. -/
theorem mem_used_fresh : (supply.fresh role).1 ∈ (supply.fresh role).2.used :=
  List.mem_cons_self

/-- A made-up name consists of the stem, the role and a number. -/
theorem exists_fresh_eq_candidate : ∃ n, (supply.fresh role).1 = supply.candidate role n :=
  ⟨_, rfl⟩

/-- The name can be made up for a role, from the supply or after other names were taken. -/
def Offers (supply : NameSupply) (role x : String) : Prop :=
  x ∉ supply.used ∧ ∃ n, x = supply.candidate role n

/-- What is made up later can be made up from the first supply. -/
theorem Advances.offers {first second : NameSupply} (h : first.Advances second) (role : String) :
    first.Offers role (second.fresh role).1 := by
  refine ⟨fun hused => second.fresh_not_mem role (h.used hused), ?_⟩
  obtain ⟨n, hn⟩ := second.exists_fresh_eq_candidate role
  exact ⟨n, by rw [hn, candidate, candidate, h.stem]⟩

end Desugar.NameSupply
