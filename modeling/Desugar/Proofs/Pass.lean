import Desugar.Pass

/-!
# Steps of a pass

What each primitive of `Pass` gives, emits and notes. Together with the laws of `pure` and `bind`
these equations run a pass symbolically.
-/

namespace Desugar.Pass

variable (supply : NameSupply)

section Map

variable {α β : Type} (f : α → β) (p : Pass α)

@[simp] theorem value_map : ((f <$> p) supply).value = f (p supply).value := rfl
@[simp] theorem supply_map : ((f <$> p) supply).supply = (p supply).supply := rfl
@[simp] theorem code_map : ((f <$> p) supply).code = (p supply).code := List.append_nil _
@[simp] theorem notes_map : ((f <$> p) supply).notes = (p supply).notes := Notes.append_empty _

end Map

section Fresh

variable (role : String)

@[simp] theorem value_fresh : (fresh role supply).value = (supply.fresh role).1 := rfl
@[simp] theorem supply_fresh : (fresh role supply).supply = (supply.fresh role).2 := rfl
@[simp] theorem code_fresh : (fresh role supply).code = [] := rfl
@[simp] theorem notes_fresh : (fresh role supply).notes = .empty := rfl

variable (roles : List String)

@[simp] theorem value_freshList :
    (freshList roles supply).value = (supply.freshList roles).1 := rfl
@[simp] theorem supply_freshList :
    (freshList roles supply).supply = (supply.freshList roles).2 := rfl
@[simp] theorem code_freshList : (freshList roles supply).code = [] := rfl
@[simp] theorem notes_freshList : (freshList roles supply).notes = .empty := rfl

end Fresh

section Emit

variable (code : List Stmt)

@[simp] theorem supply_emit : (emit code supply).supply = supply := rfl
@[simp] theorem code_emit : (emit code supply).code = code := rfl
@[simp] theorem notes_emit : (emit code supply).notes = .empty := rfl

end Emit

section Note

variable (notes : Notes)

@[simp] theorem supply_note : (note notes supply).supply = supply := rfl
@[simp] theorem code_note : (note notes supply).code = [] := rfl
@[simp] theorem notes_note : (note notes supply).notes = notes := rfl

@[simp] theorem supply_report (cause : Cause) (span : Span) :
    (report cause span supply).supply = supply := rfl
@[simp] theorem code_report (cause : Cause) (span : Span) :
    (report cause span supply).code = [] := rfl
@[simp] theorem notes_report (cause : Cause) (span : Span) :
    (report cause span supply).notes = { faults := [⟨cause, span⟩] } := rfl

@[simp] theorem supply_record (event : Event) : (record event supply).supply = supply := rfl
@[simp] theorem code_record (event : Event) : (record event supply).code = [] := rfl
@[simp] theorem faults_record (event : Event) : (record event supply).notes.faults = [] := rfl

@[simp] theorem supply_require (function : String) :
    (require function supply).supply = supply := rfl
@[simp] theorem code_require (function : String) : (require function supply).code = [] := rfl
@[simp] theorem faults_require (function : String) :
    (require function supply).notes.faults = [] := rfl

end Note

end Desugar.Pass
