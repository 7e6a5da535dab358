import Mathlib.Data.Finset.Lattice.Lemmas
import Mathlib.Data.Finset.Option
import Desugar.Proofs.Declarations
import Desugar.Proofs.Signature.Keys
import Desugar.Proofs.Template.Survey

/-!
# The packages of inserted code

A lowering inserts calls of configured functions: templates are formatted, and errors are made of
the texts that are thrown. Each pass notes the packages of the functions that it inserts calls of,
and all of them are imported in the end. Inserted calls go by the name of the package. If the source
imports the package under an alias only, no import is added and nothing has this name.

- `Program.helperPackages`: the packages of what becomes of templates and thrown texts.
- `imports_lower`: packages of inserted code are imported, and under which name.
- `imports_lower_greeter`: a package that is imported under another name only.
-/

namespace Desugar

/-! ### What the source needs -/

/-- Gathers the packages of the functions by which templates and thrown texts are replaced, and the
packages that are asked for in notes. -/
def packageSurvey (settings : Settings) : Survey (Finset String) where
  name _ := ∅
  declare _ _ _ := ∅
  stray := ∅
  func _ packages := packages
  literal := false
  template := (Path.package? settings.formatFunction).toFinset
  thrownText := (Path.package? settings.errorConstructor).toFinset
  thrownTemplate := (Path.package? settings.errorFormatFunction).toFinset
  noted notes := notes.imports.toFinset
  declare_header _ _ _ := le_rfl
  func_mono _ := monotone_id
  func_mapType _ _ _ := rfl
  name_le_func _ _ _ h := h
  noted_left m n := by
    rw [Notes.imports_append, List.toFinset_append]
    exact Finset.subset_union_left
  noted_right m n := by
    rw [Notes.imports_append, List.toFinset_append]
    exact Finset.subset_union_right
  func_noted _ _ _ := le_rfl

section PackageSurvey

variable (settings : Settings)

/-- The package of a path is among the noted ones if it is asked for. -/
theorem toFinset_package?_le (path : String) :
    (Path.package? path).toFinset ≤
      (packageSurvey settings).noted { imports := (Path.package? path).toList } := by
  intro package hpackage
  exact List.mem_toFinset.mpr (Option.mem_toList.mpr (Option.mem_toFinset.mp hpackage))

/-- The package of an error function is asked for when an error is made. -/
theorem notesErrors_packageSurvey : (packageSurvey settings).NotesErrors settings where
  text := toFinset_package?_le settings _
  template := toFinset_package?_le settings _

/-- Tasks add nothing to the packages of templates. -/
theorem notesTasks_packageSurvey : (packageSurvey settings).settled.NotesTasks where
  settled := rfl
  name _ := rfl
  bind _ _ _ _ := Finset.empty_subset _

/-- The package of the format function is asked for when a template is expanded. -/
theorem notesTemplates_packageSurvey :
    (packageSurvey settings).settled.NotesTemplates settings.formatFunction where
  settled := rfl
  name _ := rfl
  declare _ _ _ := rfl
  stray := rfl
  func _ _ := le_rfl
  template := toFinset_package?_le settings _

end PackageSurvey

/-- The key of a function once the type of its receiver is lowered. -/
def Function.loweredKey (policy : OptionPolicy) (f : Function) : String :=
  { f with receiver := f.receiver.map (Param.mapType (Ty.lowered policy)) }.key

/-- The packages of what becomes of the templates and thrown texts of an item, in a unit with the
given functions. A function whose lowered key is the key of none of them keeps its `throw`s, and
templates in these are formatted like all others. So are templates in the value of a constant. -/
def Item.helperPackages (settings : Settings) (functions : List Function) : Item → Finset String
  | .func f =>
    if functions.any (·.key == f.loweredKey settings.optionPolicy) then
      (packageSurvey settings).block false f.body
    else (packageSurvey settings).settled.block false f.body
  | .const c => (packageSurvey settings).settled.expr c.value
  | _ => ∅

/-- The packages of what becomes of the templates and thrown texts of a unit. -/
def Program.helperPackages (settings : Settings) (program : Program) : Finset String :=
  gatherAll (Item.helperPackages settings program.functions) program.items

/-! ### What the passes ask for -/

/-- Signatures are found by the keys of the functions of a unit and by no others. -/
theorem lowerTypes_keys (settings : Settings) (program : Program) :
    (lowerTypes settings program).Yields fun (_, table) =>
      ∀ key, (table.get? key).isSome = program.functions.any (·.key == key) := by
  intro hfaults key
  obtain ⟨-, -, -, hknown⟩ := lowerTypes_yields settings program hfaults
  rw [Bool.eq_iff_iff, List.any_eq_true]
  constructor
  · intro hfound
    by_contra hnone
    have hother : ∀ f, .func f ∈ program.items → f.key ≠ key := fun f hf hkey =>
      hnone ⟨f, Program.mem_functions.mpr hf, beq_iff_eq.mpr hkey⟩
    have hempty :
        (SignatureTable.ofItems settings.optionPolicy program.items).value.get? key = none :=
      SignatureTable.get?_foldlM_recordItem hother
    rw [hempty] at hfound
    cases hfound
  · rintro ⟨f, hf, hkey⟩
    rw [← beq_iff_eq.mp hkey]
    exact hknown f (Program.mem_functions.mp hf)

/-- What is gathered in an item with lowered types is what its source says. -/
theorem declared_mapTypes {settings : Settings} {table : SignatureTable} {functions : List Function}
    (hkeys : ∀ key, (table.get? key).isSome = functions.any (·.key == key)) (item : Item) :
    (packageSurvey settings).declared table (item.mapTypes (Ty.lowered settings.optionPolicy)) =
      item.helperPackages settings functions := by
  cases item with
  | func f =>
    simp only [Item.mapTypes, Survey.declared, Item.helperPackages, hkeys, Survey.block_mapTypes]
    rfl
  | const c => exact Survey.expr_mapTypes _ _ c.value
  | _ => rfl

/-- The packages of all calls that are inserted are asked for. -/
theorem helperPackages_subset {settings : Settings} {table : SignatureTable}
    {program typed propagated dispatched expanded : Program}
    (htyped : (lowerTypes settings program).outcome = .ok (typed, table))
    (hpropagated : (propagateErrors table settings typed).outcome = .ok propagated)
    (hdispatched : (dispatchTasks table settings propagated).outcome = .ok dispatched)
    (hexpanded : (expandTemplates settings dispatched).outcome = .ok expanded) :
    program.helperPackages settings ⊆
      ((propagateErrors table settings typed).notes.imports ++
        ((dispatchTasks table settings propagated).notes.imports ++
          (expandTemplates settings dispatched).notes.imports)).toFinset := by
  obtain ⟨hmapped, -⟩ := (lowerTypes_yields settings program).of_outcome htyped
  have hkeys := (lowerTypes_keys settings program).of_outcome htyped
  have hsource : program.helperPackages settings ≤
      gatherAll ((packageSurvey settings).declared table) typed.items := by
    refine gatherAll_le fun item hitem => ?_
    rw [hmapped, ← declared_mapTypes hkeys]
    exact le_gatherAll (List.mem_map_of_mem hitem)
  have hpropagates := (propagateErrors_gathers (notesErrors_packageSurvey settings) table
    typed).of_outcome hpropagated
  have hdispatches := (dispatchTasks_gathers (notesTasks_packageSurvey settings) table settings
    propagated).of_outcome hdispatched
  have hexpands := (expandTemplates_gathers (notesTemplates_packageSurvey settings)
    dispatched).of_outcome hexpanded
  -- What a pass does not ask for is left for the passes after it, and in the end nothing is left.
  calc program.helperPackages settings
      ≤ gatherAll ((packageSurvey settings).declared table) typed.items := hsource
    _ ≤ gatherAll (packageSurvey settings).settled.item propagated.items ⊔
          (propagateErrors table settings typed).notes.imports.toFinset := hpropagates
    _ ≤ gatherAll (packageSurvey settings).settled.item dispatched.items ⊔
          (dispatchTasks table settings propagated).notes.imports.toFinset ⊔
          (propagateErrors table settings typed).notes.imports.toFinset :=
        sup_le_sup_right hdispatches _
    _ ≤ ⊥ ⊔ (expandTemplates settings dispatched).notes.imports.toFinset ⊔
          (dispatchTasks table settings propagated).notes.imports.toFinset ⊔
          (propagateErrors table settings typed).notes.imports.toFinset :=
        sup_le_sup_right (sup_le_sup_right hexpands _) _
    _ = _ := by
        simp only [List.toFinset_append, Finset.sup_eq_union, Finset.bot_eq_empty,
          Finset.empty_union, Finset.union_comm, Finset.union_left_comm]

/-! ### Imports -/

/-- **The packages of inserted code are imported.** If a lowering replaces a template or a thrown
text by a call of a function from a package, or adds support code, which needs the package `sync`,
then the lowered unit imports this package. It does so under its own name, by which the inserted
code goes, if and only if the source imports it without an alias or not at all. -/
theorem imports_lower {settings : Settings} {program lowered : Program} {path : String}
    (h : (lower settings program).outcome = .ok lowered)
    (hneeded : path ∈ program.helperPackages settings ∨
      path = "sync" ∧ (∀ item ∈ program.items, Dispatch.isSupport item = false) ∧
        ∃ item ∈ lowered.items, Dispatch.isSupport item = true) :
    (∃ entry ∈ lowered.imports, entry.path = path) ∧
      (Imports.plain path ∈ lowered.imports ↔
        Imports.plain path ∈ program.imports ∨ ∀ entry ∈ program.imports, entry.path ≠ path) := by
  obtain ⟨typed, table, propagated, dispatched, expanded, htyped, hpropagated, hdispatched,
    hexpanded, -, -, hitems, himports⟩ := lower_eq_passes h
  have hasked : path ∈ (propagateErrors table settings typed).notes.imports ++
      ((dispatchTasks table settings propagated).notes.imports ++
        (expandTemplates settings dispatched).notes.imports) := by
    rcases hneeded with hhelper | ⟨rfl, hnone, item, hitem, hsupport⟩
    · exact List.mem_toFinset.mp
        (helperPackages_subset htyped hpropagated hdispatched hexpanded hhelper)
    · have hdispatches : Dispatch.dispatches table settings propagated.items = true := by
        -- Otherwise the support code would stem from an item of the source.
        by_contra hidle
        have hheadings := map_heading_passes hnone htyped hpropagated hdispatched hexpanded
        rw [if_neg hidle, List.append_nil, ← hitems] at hheadings
        obtain ⟨source, hsource, hheading⟩ :=
          List.mem_map.mp (hheadings ▸ List.mem_map_of_mem hitem)
        rw [← Item.isSupport_congr hheading, hnone source hsource] at hsupport
        cases hsupport
      exact List.mem_append_right _
        (List.mem_append_left _ (sync_mem_dispatchTasks hdispatches))
  have hrequired := List.mem_append_right (lowerTypes settings program).notes.imports hasked
  rw [himports]
  exact ⟨Imports.has_require hrequired, Imports.imports_plain_require_iff hrequired⟩

/-- The unit `sweeper` needs `fmt` for a template and `sync` for its task, and imports both. -/
theorem imports_lower_sweeper :
    "fmt" ∈ sweeper.helperPackages {} ∧
      (∀ item ∈ sweeper.items, Dispatch.isSupport item = false) ∧
      ∃ lowered, (lower {} sweeper).outcome = .ok lowered ∧
        (∃ item ∈ lowered.items, Dispatch.isSupport item = true) ∧
        Imports.plain "fmt" ∈ lowered.imports ∧ Imports.plain "sync" ∈ lowered.imports := by
  have hformat : "fmt" ∈ sweeper.helperPackages {} := by decide
  have hnone : ∀ item ∈ sweeper.items, Dispatch.isSupport item = false := by decide
  have hany : (lower {} sweeper).outcome.toOption.any (·.items.any Dispatch.isSupport) = true := by
    decide +kernel
  cases hlower : (lower {} sweeper).outcome with
  | error faults => simp [hlower, Except.toOption] at hany
  | ok lowered =>
    rw [hlower] at hany
    have hsupport := List.any_eq_true.mp hany
    obtain ⟨-, hfmt⟩ := imports_lower hlower (.inl hformat)
    obtain ⟨-, hsync⟩ := imports_lower hlower (.inr ⟨rfl, hnone, hsupport⟩)
    exact ⟨hformat, hnone, lowered, rfl, hsupport, hfmt.mpr (by decide), hsync.mpr (by decide)⟩

/-- `greet(x int) string`, which returns a template. -/
def greetFunction : Function where
  name := "greet"
  receiver := none
  params := [{ name := "x", ty := .named "int" }]
  returns := some (.named "string")
  body := .inserted
    [.ret [.template [.text "n=", .embed (.name "x") none .nowhere] .nowhere] .nowhere]

/-- A unit that imports the package of the formatting function as `f`. -/
def greeter : Program where
  name := "greeter"
  package := "main"
  imports := [{ path := "fmt", localName := some "f" }]
  items := [.func greetFunction]

/-- The text of the lowered unit. -/
def greeterText : String :=
  "package main\n\nimport f \"fmt\"\n\nfunc greet(x int) string \x7b\n" ++
    "\treturn fmt.Sprintf(\"n=%v\", x)\n\x7d\n"

/-- A call of `fmt.Sprintf` is inserted where only `f` stands for the package. -/
theorem imports_lower_greeter :
    "fmt" ∈ greeter.helperPackages {} ∧
      ∃ lowered, (lower {} greeter).outcome = .ok lowered ∧
        Imports.plain "fmt" ∉ lowered.imports ∧ (emit lowered).toOption = some greeterText := by
  have hformat : "fmt" ∈ greeter.helperPackages {} := by decide
  have hlowered : ∃ lowered ∈ (lower {} greeter).outcome.toOption,
      Imports.plain "fmt" ∉ lowered.imports ∧ (emit lowered).toOption = some greeterText := by
    decide +kernel
  cases hlower : (lower {} greeter).outcome with
  | error faults => simp [hlower, Except.toOption] at hlowered
  | ok lowered =>
    rw [hlower] at hlowered
    obtain ⟨_, ⟨⟩, hlowered⟩ := hlowered
    exact ⟨hformat, lowered, rfl, hlowered⟩

end Desugar
