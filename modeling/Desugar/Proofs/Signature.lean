import Desugar.LocalTypes
import Desugar.Proofs.Ty.Lowering

/-!
# Known signatures

A table of signatures grows as functions are recorded: no key is lost, and a recorded signature is
found by its key. Signatures are recorded with lowered values, so the values of a call that can be
resolved are plain.
-/

namespace Desugar

namespace SignatureTable

/-- All values of the recorded signatures are plain. -/
def IsPlain (table : SignatureTable) : Prop :=
  ∀ key, ∀ sig ∈ table.get? key, ∀ t ∈ sig.values, t.isPlain = true

/-- Every key of one table is a key of the other. -/
def Extends (table smaller : SignatureTable) : Prop :=
  ∀ key, (smaller.get? key).isSome → (table.get? key).isSome

theorem Extends.refl (table : SignatureTable) : table.Extends table := fun _ => id

theorem Extends.trans {a b c : SignatureTable} (hab : a.Extends b) (hbc : b.Extends c) :
    a.Extends c :=
  fun key h => hab key (hbc key h)

variable {table : SignatureTable} {key : String} {sig : Signature}

/-- A recorded signature is found under its key. -/
theorem get?_insert_self : (table.insert key sig).get? key = some sig := by
  simp [insert, get?]

theorem lookup_filter_ne {other : String} (h : other ≠ key) (entries : List (String × Signature)) :
    (entries.filter (·.1 != key)).lookup other = entries.lookup other := by
  induction entries with
  | nil => rfl
  | cons entry rest ih =>
    obtain ⟨name, value⟩ := entry
    by_cases hname : name = key
    · have hother : (other == key) = false := by simpa using h
      simp [hname, List.lookup_cons, hother, ih]
    · simp [hname, List.lookup_cons, ih]

/-- The signatures of other keys stay. -/
theorem get?_insert_of_ne {other : String} (h : other ≠ key) :
    (table.insert key sig).get? other = table.get? other := by
  have hother : (other == key) = false := by simpa using h
  simp only [insert, get?, List.lookup_cons, hother]
  exact lookup_filter_ne h _

/-- A table stays plain if the recorded values are plain. -/
theorem IsPlain.insert (h : table.IsPlain) (hsig : ∀ t ∈ sig.values, t.isPlain = true) :
    (table.insert key sig).IsPlain := by
  intro other found hfound
  by_cases hkey : other = key
  · rw [hkey, get?_insert_self] at hfound
    cases hfound
    exact hsig
  · rw [get?_insert_of_ne hkey] at hfound
    exact h other found hfound

/-- Recording a signature removes no key. -/
theorem extends_insert : (table.insert key sig).Extends table := by
  intro other hother
  by_cases hkey : other = key
  · rw [hkey, get?_insert_self]
    rfl
  · rw [get?_insert_of_ne hkey]
    exact hother

/-- What is called has a signature of the table. -/
theorem exists_get?_of_resolve? {types : LocalTypes} {callee : Expr}
    (h : table.resolve? types callee = some sig) : ∃ key, table.get? key = some sig := by
  unfold resolve? at h
  split at h
  · split at h
    · exact ⟨_, h⟩
    · cases h
  · obtain ⟨ty, -, h⟩ := Option.bind_eq_some_iff.mp h
    exact ⟨_, h⟩
  · cases h

/-- The error of a result is plain, too, so all slots of a resolved call are. -/
theorem IsPlain.all_isPlain_slots (h : table.IsPlain) {types : LocalTypes} {callee : Expr}
    (hsig : table.resolve? types callee = some sig) : ∀ t ∈ sig.slots, t.isPlain = true := by
  obtain ⟨key, hkey⟩ := exists_get?_of_resolve? hsig
  exact ReturnShape.all_isPlain_slots (h key sig hkey)

end SignatureTable

end Desugar
