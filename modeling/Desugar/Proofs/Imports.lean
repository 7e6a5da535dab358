import Mathlib.Data.List.Nodup
import Desugar.Imports

/-!
# Adding imports

The imports of a unit may come in any order, repeat a package and give it local names. Requiring
packages adds the missing ones and sorts, and it touches nothing else: seen one package at a time,
the old imports are all there, in their old order. Seen this way a sorted list of imports has no
freedom left, so the outcome depends on the set of required packages only.

- `entries`: the imports of one package.
- `entries_require`: what requiring packages makes of the imports of each package.
- `require_adds`: all of it for a list of imports and a set of packages.
- `imports_plain_require_iff`: when a required package is there under its own name.
-/

namespace Desugar.Imports

/-- The imports of a package, in order. -/
def entries (imports : List Import) (path : String) : List Import :=
  imports.filter (·.path == path)

/-- The imports are in the order of their paths. -/
def IsSorted (imports : List Import) : Prop := imports.Pairwise (·.path ≤ ·.path)

variable {imports : List Import} {required : List String} {path : String}

@[simp] theorem entries_append (imports rest : List Import) (path : String) :
    entries (imports ++ rest) path = entries imports path ++ entries rest path :=
  List.filter_append imports rest

/-- The entries of a path are the imports with this path. -/
theorem mem_entries {i : Import} : i ∈ entries imports path ↔ i ∈ imports ∧ i.path = path := by
  simp [entries]

/-- A package is imported if there is an import with its path. -/
theorem has_iff : has imports path = true ↔ ∃ i ∈ imports, i.path = path := by simp [has]

/-! ### What is missing -/

theorem nodup_eraseDups (paths : List String) : paths.eraseDups.Nodup := by
  cases paths with
  | nil => simp
  | cons path rest =>
    rw [List.eraseDups_cons, List.nodup_cons]
    exact ⟨by simp, nodup_eraseDups (rest.filter fun other => !other == path)⟩
termination_by paths.length
decreasing_by exact Nat.lt_succ_of_le (List.length_filter_le _ _)

/-- No package is added twice. -/
theorem nodup_missing (imports : List Import) (required : List String) :
    (missing imports required).Nodup := (nodup_eraseDups required).filter _

/-- A package is added if it is required and not imported yet. -/
theorem mem_missing :
    path ∈ missing imports required ↔ path ∈ required ∧ ∀ i ∈ imports, i.path ≠ path := by
  rw [missing, List.mem_filter, List.mem_eraseDups, Bool.not_eq_true', Bool.eq_false_iff, Ne,
    has_iff]
  simp

/-- Nothing is added if all required packages are imported. -/
theorem missing_eq_nil :
    missing imports required = [] ↔ ∀ path ∈ required, ∃ i ∈ imports, i.path = path := by
  rw [List.eq_nil_iff_forall_not_mem]
  refine forall_congr' fun path => ?_
  rw [mem_missing]
  simp

/-- A package that is missing is added once, and under its own name. -/
theorem entries_plain {paths : List String} (h : paths.Nodup) (path : String) :
    entries (paths.map plain) path = if path ∈ paths then [plain path] else [] := by
  have hfilter : entries (paths.map plain) path = (paths.filter (· == path)).map plain := by
    rw [entries, List.filter_map]
    rfl
  rw [hfilter, List.filter_beq, h.count]
  split <;> rfl

/-! ### Sorting -/

theorem le_path_trans (a b c : Import) (hab : decide (a.path ≤ b.path) = true)
    (hbc : decide (b.path ≤ c.path) = true) : decide (a.path ≤ c.path) = true :=
  decide_eq_true (String.le_trans (of_decide_eq_true hab) (of_decide_eq_true hbc))

theorem le_path_total (a b : Import) :
    (decide (a.path ≤ b.path) || decide (b.path ≤ a.path)) = true := by
  simpa using String.le_total a.path b.path

/-- The sorted imports are in the order of their paths. -/
theorem isSorted_sort (imports : List Import) :
    IsSorted (imports.mergeSort (·.path ≤ ·.path)) :=
  (List.pairwise_mergeSort le_path_trans le_path_total imports).imp of_decide_eq_true

/-- Sorting keeps the order of the imports of a package. -/
theorem entries_sort (imports : List Import) (path : String) :
    entries (imports.mergeSort (·.path ≤ ·.path)) path = entries imports path := by
  have hperm : (imports.mergeSort (·.path ≤ ·.path)).Perm imports := List.mergeSort_perm _ _
  -- The imports of one package are in order already, so sorting has them as a sublist.
  have hequal : (entries imports path).Pairwise fun a b => decide (a.path ≤ b.path) = true := by
    refine List.pairwise_of_forall_mem_list fun a ha b hb => ?_
    rw [(mem_entries.mp ha).2, (mem_entries.mp hb).2]
    exact decide_eq_true (String.le_refl path)
  have hsublist : (entries imports path).Sublist (imports.mergeSort (·.path ≤ ·.path)) :=
    List.sublist_mergeSort le_path_trans le_path_total hequal List.filter_sublist
  have hentries : (entries imports path).Sublist
      (entries (imports.mergeSort (·.path ≤ ·.path)) path) := by
    have hfilter := hsublist.filter (·.path == path)
    simpa only [entries, List.filter_filter, Bool.and_self] using hfilter
  exact (hentries.eq_of_length (hperm.filter _).length_eq.symm).symm

/-- Sorted imports are determined by the imports of each package. -/
theorem eq_of_entries_eq {left right : List Import} (hleft : IsSorted left)
    (hright : IsSorted right) (h : ∀ path, entries left path = entries right path) :
    left = right := by
  induction left generalizing right with
  | nil =>
    cases right with
    | nil => rfl
    | cons b right => simpa [entries] using h b.path
  | cons a left ih =>
    cases right with
    | nil => simpa [entries] using h a.path
    | cons b right =>
      have hleft' := List.pairwise_cons.mp hleft
      have hright' := List.pairwise_cons.mp hright
      -- Each head is among the imports of the other list, so neither path is before the other.
      have ha : a ∈ entries (b :: right) a.path :=
        h a.path ▸ mem_entries.mpr ⟨List.mem_cons_self, rfl⟩
      have hb : b ∈ entries (a :: left) b.path :=
        h b.path ▸ mem_entries.mpr ⟨List.mem_cons_self, rfl⟩
      have hpath : a.path = b.path := by
        rcases List.mem_cons.mp (mem_entries.mp ha).1 with rfl | ha
        · rfl
        · rcases List.mem_cons.mp (mem_entries.mp hb).1 with rfl | hb
          · rfl
          · exact String.le_antisymm (hleft'.1 b hb) (hright'.1 a ha)
      have hheads : a = b := by
        have hentries := h a.path
        simp only [entries, hpath, BEq.rfl, List.filter_cons_of_pos] at hentries
        exact (List.cons.inj hentries).1
      subst hheads
      have htails (path : String) : entries left path = entries right path := by
        have hentries := h path
        by_cases hhead : a.path = path
        · simpa [entries, hhead] using hentries
        · simpa [entries, hhead] using hentries
      rw [ih hleft'.2 hright'.2 htails]

/-! ### Requiring packages -/

/-- If nothing is missing, the imports stay as they are, sorted or not. -/
theorem require_of_missing_eq_nil (h : missing imports required = []) :
    require imports required = imports := by
  rw [require, h]

/-- If something is missing, it is added and all imports are sorted. -/
theorem require_of_missing_ne_nil (h : missing imports required ≠ []) :
    require imports required =
      (imports ++ (missing imports required).map plain).mergeSort (·.path ≤ ·.path) := by
  unfold require
  split
  · contradiction
  · rfl

/-- Besides their order, the imports change only by those that are added. -/
theorem require_perm (imports : List Import) (required : List String) :
    (require imports required).Perm (imports ++ (missing imports required).map plain) := by
  by_cases h : missing imports required = []
  · rw [require_of_missing_eq_nil h, h, List.map_nil, List.append_nil]
  · rw [require_of_missing_ne_nil h]
    exact List.mergeSort_perm _ _

/-- The imports of a package stay as they are, and a missing package gets one. -/
theorem entries_require (imports : List Import) (required : List String) (path : String) :
    entries (require imports required) path =
      entries imports path ++ if path ∈ missing imports required then [plain path] else [] := by
  rw [← entries_plain (nodup_missing imports required), ← entries_append]
  by_cases h : missing imports required = []
  · rw [require_of_missing_eq_nil h, h, List.map_nil, List.append_nil]
  · rw [require_of_missing_ne_nil h, entries_sort]

/-- An import is one of the old ones or a plain one of a missing package. -/
theorem mem_require {i : Import} :
    i ∈ require imports required ↔
      i ∈ imports ∨ ∃ path ∈ missing imports required, i = plain path := by
  rw [(require_perm imports required).mem_iff, List.mem_append, List.mem_map]
  simp only [eq_comm]

/-- A required package is imported in the end. -/
theorem has_require (h : path ∈ required) : ∃ i ∈ require imports required, i.path = path := by
  by_cases hmissing : path ∈ missing imports required
  · exact ⟨plain path, mem_require.mpr (.inr ⟨path, hmissing, rfl⟩), rfl⟩
  · have hold : ∃ i ∈ imports, i.path = path := by simpa [mem_missing, h] using hmissing
    obtain ⟨i, hi, hpath⟩ := hold
    exact ⟨i, mem_require.mpr (.inl hi), hpath⟩

/-- It matters which packages are required, but not in which order or how often. -/
theorem require_congr {required' : List String} (h : ∀ path, path ∈ required' ↔ path ∈ required) :
    require imports required' = require imports required := by
  have hmissing (path : String) :
      path ∈ missing imports required' ↔ path ∈ missing imports required := by
    rw [mem_missing, mem_missing, h]
  by_cases hnil : missing imports required = []
  · have hnil' : missing imports required' = [] := by
      rw [List.eq_nil_iff_forall_not_mem] at hnil ⊢
      exact fun path => (hmissing path).not.mpr (hnil path)
    rw [require_of_missing_eq_nil hnil, require_of_missing_eq_nil hnil']
  · have hne' : missing imports required' ≠ [] := by
      obtain ⟨path, hpath⟩ := List.exists_mem_of_ne_nil _ hnil
      exact List.ne_nil_of_mem ((hmissing path).mpr hpath)
    refine eq_of_entries_eq ?_ ?_ fun path => ?_
    · rw [require_of_missing_ne_nil hne']
      exact isSorted_sort _
    · rw [require_of_missing_ne_nil hnil]
      exact isSorted_sort _
    · rw [entries_require, entries_require]
      simp only [hmissing]

/-- A required package is imported under its own name if it was so before, or if it was not imported
at all. -/
theorem imports_plain_require_iff (h : path ∈ required) :
    plain path ∈ require imports required ↔
      plain path ∈ imports ∨ ∀ i ∈ imports, i.path ≠ path := by
  rw [mem_require]
  refine or_congr Iff.rfl ⟨?_, fun hnone => ⟨path, mem_missing.mpr ⟨h, hnone⟩, rfl⟩⟩
  rintro ⟨other, hother, heq⟩
  obtain rfl : path = other := congrArg Import.path heq
  exact (mem_missing.mp hother).2

/-- **Adding what is missing.** Every required package is imported afterwards. The imports are the
old ones and one under its own name for each package that was missing. If none was missing, the
imports stay as they are; otherwise they are sorted. The imports of a package that was there keep
their order. Requiring the same packages again, in whatever order, changes nothing. -/
theorem require_adds (imports : List Import) (required : List String) :
    (∀ path ∈ required, ∃ i ∈ require imports required, i.path = path) ∧
    (∃ added, (require imports required).Perm (imports ++ added) ∧
      (∀ i ∈ added, i.localName = none) ∧
      ∀ path, (path ∈ required → (∀ i ∈ imports, i.path ≠ path) → (entries added path).length = 1) ∧
        (¬(path ∈ required ∧ ∀ i ∈ imports, i.path ≠ path) → entries added path = [])) ∧
    ((∀ path ∈ required, ∃ i ∈ imports, i.path = path) → require imports required = imports) ∧
    ((∃ path ∈ required, ∀ i ∈ imports, i.path ≠ path) → IsSorted (require imports required)) ∧
    (∀ path, (∃ i ∈ imports, i.path = path) →
      entries (require imports required) path = entries imports path) ∧
    ∀ again, (∀ path, path ∈ again ↔ path ∈ required) →
      require imports again = require imports required ∧
        require (require imports required) again = require imports required := by
  refine ⟨fun path => has_require, ⟨(missing imports required).map plain, ?_, ?_, ?_⟩, ?_, ?_, ?_,
    ?_⟩
  · exact require_perm imports required
  · intro i hi
    obtain ⟨path, -, rfl⟩ := List.mem_map.mp hi
    rfl
  · intro path
    rw [entries_plain (nodup_missing imports required), ← mem_missing]
    refine ⟨fun hrequired hmissing => ?_, fun hpath => if_neg hpath⟩
    rw [if_pos (mem_missing.mpr ⟨hrequired, hmissing⟩)]
    rfl
  · exact fun h => require_of_missing_eq_nil (missing_eq_nil.mpr h)
  · rintro ⟨path, hpath, hnone⟩
    rw [require_of_missing_ne_nil (List.ne_nil_of_mem (mem_missing.mpr ⟨hpath, hnone⟩))]
    exact isSorted_sort _
  · rintro path ⟨i, hi, hpath⟩
    have hold : path ∉ missing imports required := fun h => (mem_missing.mp h).2 i hi hpath
    rw [entries_require, if_neg hold, List.append_nil]
  · intro again hagain
    have hnone : missing (require imports required) again = [] :=
      missing_eq_nil.mpr fun path hpath => has_require ((hagain path).mp hpath)
    exact ⟨require_congr hagain, require_of_missing_eq_nil hnone⟩

end Desugar.Imports
