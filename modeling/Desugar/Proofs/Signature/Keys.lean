import Mathlib.Data.List.Basic
import Desugar.Propagation
import Desugar.Proofs.ValueTypes

/-!
# Keys of methods

The signature of a method is recorded under a key that is made of its receiver as it was declared.
Error propagation looks it up after types are lowered, with a key that is made of the lowered
receiver. A pointer gives the same name in both forms. An option has no name of its own, but the
pointer or the reference that it is lowered to has the name of what it leads to.

- `Ty.receiverName_of_lower`: the name of a lowered receiver, and `Ty.receiverName_eq_iff`: when it
  is the declared one.
- `SignatureTable.foldlM_recordItem_finds`: the table has the signature of every function by its
  declared key.
- `lowerTypes_finds`: what is found by the key of a lowered function, and that the function is then
  rewritten.
- `lowerTypes_finds_optional`: a method of an optional receiver is not found.
-/

namespace Desugar

/-! ### Names of receivers -/

namespace Ty

/-- The name that is left once pointer and option layers are stripped. -/
def coreName : Ty → String
  | pointer inner _ | option inner => inner.coreName
  | named name => name
  | _ => ""

/-- Under its pointer layers the type is an option, and under those of the option it has a name. -/
def hidesName : Ty → Bool
  | pointer inner _ => inner.hidesName
  | option inner => inner.coreName != ""
  | _ => false

/-- A lowered receiver has the name that is left of the declared one without its layers. -/
theorem receiverName_of_lower {policy : OptionPolicy} : ∀ {t u : Ty}, t.lower policy = .ok u →
    u.receiverName = t.coreName
  | named _, _, h => by
    cases h
    rfl
  | array _, _, h => by
    obtain ⟨_, -, h⟩ := bind_eq_ok h
    cases h
    rfl
  | map _ _, _, h => by
    obtain ⟨_, -, h⟩ := bind_eq_ok h
    obtain ⟨_, -, h⟩ := bind_eq_ok h
    cases h
    rfl
  | option inner, _, h => by
    -- with or without a pointer in place of the option, the name is that of the inner type
    obtain ⟨lowered, hlowered, h⟩ := bind_eq_ok h
    have hinner : lowered.receiverName = inner.coreName := receiverName_of_lower hlowered
    split at h
    all_goals
      cases h
      exact hinner
  | result _, _, h => by cases h
  | pointer inner _, _, h => by
    obtain ⟨lowered, hlowered, h⟩ := bind_eq_ok h
    cases h
    have hinner : lowered.receiverName = inner.coreName := receiverName_of_lower hlowered
    exact hinner
  | channel _ _, _, h => by
    obtain ⟨_, -, h⟩ := bind_eq_ok h
    cases h
    rfl
  | tuple _, _, h => by cases h

/-- The name is visible in the declared receiver unless an option hides it. -/
theorem coreName_eq_iff : ∀ t : Ty, t.coreName = t.receiverName ↔ t.hidesName = false
  | named _ | array _ | map _ _ | result _ | channel _ _ | tuple _ => by
    simp [coreName, receiverName, hidesName]
  | option inner => by simp [coreName, receiverName, hidesName]
  | pointer inner _ => coreName_eq_iff inner

/-- Lowering changes the name of a receiver type if an option hides it, and only then. -/
theorem receiverName_eq_iff {policy : OptionPolicy} {t u : Ty} (h : t.lower policy = .ok u) :
    u.receiverName = t.receiverName ↔ t.hidesName = false := by
  rw [receiverName_of_lower h, coreName_eq_iff]

end Ty

/-- Methods of one name have different keys if their types have different names. -/
theorem methodKey_inj {typeName typeName' method : String} :
    methodKey typeName method = methodKey typeName' method ↔ typeName = typeName' := by
  simp [methodKey]

/-- A lowered function has the key of the declared one exactly if no option hides the name of the
receiver. -/
theorem Function.key_eq_iff {policy : OptionPolicy} {f f' : Function}
    (hmap : (Item.func f).mapTypes (Ty.lowered policy) = .func f')
    (hlower : ∀ r ∈ f.receiver, ∃ u, r.ty.lower policy = .ok u) :
    f'.key = f.key ↔ ∀ r ∈ f.receiver, r.ty.hidesName = false := by
  cases hmap
  cases hr : f.receiver with
  | none => simp [key, hr]
  | some r =>
    obtain ⟨u, hu⟩ := hlower r hr
    have hlowered : r.ty.lowered policy = u := by rw [Ty.lowered, hu]
    simp [key, hr, Param.mapType, hlowered, methodKey_inj, Ty.receiverName_eq_iff hu]

/-! ### Recorded signatures -/

/-- The signature of a function whose return clause has the given shape. -/
def Function.signature (f : Function) (shape : ReturnShape) : Signature :=
  { name := f.name, params := f.params.map (·.ty), returns := shape }

namespace SignatureTable

variable {policy : OptionPolicy} {table : SignatureTable}

/-- A function that is recorded without a fault has a shape, and is found with it. -/
theorem recordItem_func (f : Function) :
    (table.recordItem policy (.func f)).Yields fun table' =>
      ∃ shape, ReturnShape.ofClause policy f.returns = .ok shape ∧
        table'.get? f.key = some (f.signature shape) := by
  cases hshape : ReturnShape.ofClause policy f.returns with
  | error cause =>
    simp only [recordItem, hshape]
    exact Noted.yields_report_bind _
  | ok shape =>
    simp only [recordItem, hshape]
    exact (Noted.yields_record _).bind fun _ _ => .pure ⟨shape, rfl, get?_insert_self⟩

/-- Recording an item leaves all keys but its own as they are. -/
theorem get?_recordItem {key : String} {item : Item} (h : ∀ f, item = .func f → f.key ≠ key) :
    (table.recordItem policy item).value.get? key = table.get? key := by
  cases item with
  | func f =>
    cases hshape : ReturnShape.ofClause policy f.returns with
    | error cause => simp only [recordItem, hshape, Noted.value_bind, Noted.value_pure]
    | ok shape =>
      simp only [recordItem, hshape, Noted.value_bind, Noted.value_pure]
      exact get?_insert_of_ne (h f rfl).symm
  | _ => rfl

/-- Items without a function of the key do not change what is recorded for it. -/
theorem get?_foldlM_recordItem {key : String} {items : List Item} {table : SignatureTable}
    (h : ∀ f, .func f ∈ items → f.key ≠ key) :
    (items.foldlM (recordItem policy) table).value.get? key = table.get? key := by
  induction items generalizing table with
  | nil => rfl
  | cons item rest ih =>
    obtain ⟨hitem, hrest⟩ : (∀ f, item = .func f → f.key ≠ key) ∧
        ∀ f, .func f ∈ rest → f.key ≠ key :=
      ⟨fun f hf => h f (by simp [hf]), fun f hf => h f (by simp [hf])⟩
    rw [List.foldlM_cons, Noted.value_bind, ih hrest, get?_recordItem hitem]

/-- If no two functions share a key, each is found by its key with its own signature. -/
theorem foldlM_recordItem_finds {items : List Item} {table : SignatureTable}
    (h : items.Pairwise fun a b => ∀ f, a = .func f → ∀ g, b = .func g → f.key ≠ g.key) :
    (items.foldlM (recordItem policy) table).Yields fun table' =>
      ∀ f, .func f ∈ items → ∃ shape, ReturnShape.ofClause policy f.returns = .ok shape ∧
        table'.get? f.key = some (f.signature shape) := by
  induction items generalizing table with
  | nil => exact .pure nofun
  | cons item rest ih =>
    obtain ⟨hitem, hrest⟩ := List.pairwise_cons.mp h
    rw [List.foldlM_cons]
    intro hfaults f hf
    rw [Noted.notes_bind, Notes.faults_append, List.append_eq_nil_iff] at hfaults
    rw [Noted.value_bind]
    rcases List.mem_cons.mp hf with rfl | hf
    · obtain ⟨shape, hshape, hfound⟩ := recordItem_func f hfaults.1
      have hkept : ∀ g, .func g ∈ rest → g.key ≠ f.key :=
        fun g hg => (hitem _ hg f rfl g rfl).symm
      exact ⟨shape, hshape, (get?_foldlM_recordItem hkept).trans hfound⟩
    · exact ih hrest hfaults.2 f hf

end SignatureTable

/-- If all keys differ, then no two items of a unit are functions with the same key. -/
theorem Program.pairwise_of_nodup {program : Program}
    (h : (program.functions.map Function.key).Nodup) :
    program.items.Pairwise fun a b => ∀ f, a = .func f → ∀ g, b = .func g → f.key ≠ g.key := by
  rw [List.Nodup, List.pairwise_map, Program.functions, List.pairwise_filterMap] at h
  refine h.imp ?_
  rintro _ _ hapart f rfl g rfl
  exact hapart f rfl g rfl

/-! ### The passes -/

/-- An item without type faults has a lowered type at every site. -/
theorem Item.exists_lower_of_typeFaults {policy : OptionPolicy} {item : Item}
    (h : item.typeFaults policy = []) {site : TypeSite} (hsite : site ∈ item.typeSites) :
    ∃ u, site.1.lower policy = .ok u := by
  have hfault := List.filterMap_eq_nil_iff.mp h site hsite
  cases ht : site.1.lower policy with
  | ok u => exact ⟨u, rfl⟩
  | error cause => simp [ht] at hfault

/-- If types are lowered without a fault, all receivers have a lowered form and each function is
recorded under its declared key. -/
theorem lowerTypes_records (settings : Settings) {program : Program}
    (hkeys : (program.functions.map Function.key).Nodup) :
    (lowerTypes settings program).Yields fun (typed, table) =>
      typed.items = program.items.map (Item.mapTypes (Ty.lowered settings.optionPolicy)) ∧
        ∀ f, .func f ∈ program.items →
          (∀ r ∈ f.receiver, ∃ u, r.ty.lower settings.optionPolicy = .ok u) ∧
          ∃ shape, ReturnShape.ofClause settings.optionPolicy f.returns = .ok shape ∧
            table.get? f.key = some (f.signature shape) := by
  refine (SignatureTable.foldlM_recordItem_finds (Program.pairwise_of_nodup hkeys)).bind
    fun table hfound => ?_
  refine (Noted.yields_report _).bind fun _ _ => ?_
  refine (Noted.yields_report _).bind fun _ htypes => .pure ⟨rfl, fun f hf => ⟨?_, hfound f hf⟩⟩
  intro r hr
  have hsite : r.typeSite ∈ (Item.func f).typeSites := by
    simp [Item.typeSites, Option.mem_def.mp hr]
  exact Item.exists_lower_of_typeFaults (List.flatMap_eq_nil_iff.mp htypes _ hf) hsite

/-- Error propagation rewrites a function with the signature that it finds. -/
theorem propagateErrors_getElem? {table : SignatureTable} {settings : Settings} {program : Program}
    {i : Nat} {f : Function} {sig : Signature} (hf : program.items[i]? = some (.func f))
    (hsig : table.get? f.key = some sig) :
    (propagateErrors table settings program).value.items[i]? =
      some (.func (Propagation.lowerFunction table settings f sig).value) := by
  have hitems : (propagateErrors table settings program).value.items =
      program.items.map fun item => (Propagation.lowerItem table settings item).value :=
    Noted.value_mapM _ _
  rw [hitems, List.getElem?_map, hf, Option.map_some, Propagation.lowerItem, hsig]
  rfl

/-- **Keys after lowering.** If no two functions of a unit share a key and its types are lowered
without a fault, then each function is recorded under its declared key. The lowered function has the
same key exactly if no option hides the name of the receiver. It is then found with the signature
that was recorded for it, and error propagation rewrites it with this signature. -/
theorem lowerTypes_finds {settings : Settings} {program typed : Program} {table : SignatureTable}
    (hkeys : (program.functions.map Function.key).Nodup)
    (h : (lowerTypes settings program).outcome = .ok (typed, table)) {i : Nat} {f' : Function}
    (hf' : typed.items[i]? = some (.func f')) :
    ∃ f shape, program.items[i]? = some (.func f) ∧
      (Item.func f).mapTypes (Ty.lowered settings.optionPolicy) = .func f' ∧
      ReturnShape.ofClause settings.optionPolicy f.returns = .ok shape ∧
      table.get? f.key = some (f.signature shape) ∧
      (f'.key = f.key ↔ ∀ r ∈ f.receiver, r.ty.hidesName = false) ∧
      ((∀ r ∈ f.receiver, r.ty.hidesName = false) →
        table.get? f'.key = some (f.signature shape) ∧
        (propagateErrors table settings typed).value.items[i]? =
          some
            (.func (Propagation.lowerFunction table settings f' (f.signature shape)).value)) := by
  obtain ⟨hitems, hrecorded⟩ := (lowerTypes_records settings hkeys).of_outcome h
  have hsource := hf'
  rw [hitems, List.getElem?_map, Option.map_eq_some_iff] at hsource
  obtain ⟨item, hitem, hmap⟩ := hsource
  cases item with
  | func f =>
    obtain ⟨hlower, shape, hshape, hfound⟩ := hrecorded f (List.mem_of_getElem? hitem)
    have hkey := Function.key_eq_iff hmap hlower
    refine ⟨f, shape, hitem, hmap, hshape, hfound, hkey, fun hvisible => ?_⟩
    have hfound' : table.get? f'.key = some (f.signature shape) := by
      rw [hkey.mpr hvisible, hfound]
    exact ⟨hfound', propagateErrors_getElem? hf' hfound'⟩
  | _ => cases hmap

/-! ### Methods of a store -/

/-- `func (s T) load() Result<int> { return 1 }`. -/
def loadMethod (receiver : Ty) : Function where
  name := "load"
  receiver := some { name := "s", ty := receiver }
  params := []
  returns := some (.result (.named "int"))
  body := .inserted [.ret [.int 1] .nowhere]

/-- A struct type, and the method on a receiver of the given type. -/
def storeUnit (receiver : Ty) : Program where
  name := "store"
  package := "main"
  imports := []
  items := [.struct { name := "Store", fields := [] }, .func (loadMethod receiver)]

/-- `**!Store`, a receiver with two pointer layers. -/
def handle : Ty := .pointer (.pointer (.named "Store") false) true

/-- The method of `storeUnit` is found under its key, although its receiver has two pointer layers.
-/
theorem lowerTypes_finds_handle :
    ((storeUnit handle).functions.map Function.key).Nodup ∧
      ∃ typed table f' shape, (lowerTypes {} (storeUnit handle)).outcome = .ok (typed, table) ∧
        typed.items[1]? = some (.func f') ∧ f'.key = "Store.load" ∧
        ReturnShape.ofClause .nilSentinel (loadMethod handle).returns = .ok shape ∧
        table.get? f'.key = some ((loadMethod handle).signature shape) ∧
        (propagateErrors table {} typed).value.items[1]? = some (.func
          (Propagation.lowerFunction table {} f' ((loadMethod handle).signature shape)).value) := by
  have hkeys : ((storeUnit handle).functions.map Function.key).Nodup := by decide
  have haccepted : (lowerTypes {} (storeUnit handle)).outcome =
      .ok (lowerTypes {} (storeUnit handle)).value := rfl
  obtain ⟨f, shape, hf, -, hshape, -, hkey, hfound⟩ :=
    lowerTypes_finds hkeys haccepted (i := 1) rfl
  cases hf
  have hvisible : ∀ r ∈ (loadMethod handle).receiver, r.ty.hidesName = false := by
    rintro r ⟨⟩
    rfl
  exact ⟨hkeys, _, _, _, shape, haccepted, rfl, hkey.mpr hvisible, hshape, hfound hvisible⟩

/-- A method of `Store?` is recorded under a key without a type. Its lowered form is a method of
`*Store`, for which nothing is recorded, so error propagation passes over it: its return clause
stays a result, and the return without an error stays as it is. -/
theorem lowerTypes_finds_optional :
    let unit := storeUnit (.option (.named "Store"))
    let lowered := loadMethod (.pointer (.named "Store") true)
    ∃ typed table, (unit.functions.map Function.key).Nodup ∧
      (lowerTypes {} unit).outcome = .ok (typed, table) ∧
      typed.items[1]? = some (.func lowered) ∧
      (table.get? (loadMethod (.option (.named "Store"))).key).isSome ∧
      table.get? lowered.key = none ∧
      (propagateErrors table {} typed).value.items[1]? = some (.func lowered) :=
  ⟨_, _, by decide, rfl, rfl, rfl, rfl, rfl⟩

end Desugar
