import Desugar.Compile
import Desugar.Proofs.Dispatch.Unbound
import Desugar.Proofs.Stable.NilFlow
import Desugar.Proofs.Stable.Propagation
import Desugar.Proofs.Stable.Templates
import Desugar.Proofs.Stable.Types
import Desugar.Proofs.Template.Complete

/-!
# Units that lowering leaves as they are

A unit is stable if it is in the base language, has no go-binding to dispatch, and gives functions
with equal keys equal return clauses, so that the signature under the key is that of each of them.
The function literals of a constant are never lowered and may hold anything but templates and, in
value position, extended types. On a stable unit every pass is the identity, asks for no package
and finds no fault.

- `Item.IsStable` and `Program.IsStable`: the property.
- `SignatureTable.describes_ofItems`: every signature is that of a function of the unit.
- `lower_of_isStable`: lowering gives a stable unit as it is.
-/

namespace Desugar

/-! ### Work that only gives a value -/

section Quiet

variable {α β : Type}

/-- The part notes no fault and asks for no package. -/
structure Noted.IsQuiet (x : Noted α) : Prop where
  faults : x.notes.faults = []
  imports : x.notes.imports = []

namespace Noted

variable {x : Noted α} {f : α → Noted β}

theorem isQuiet_pure (a : α) : (pure a : Noted α).IsQuiet := ⟨rfl, rfl⟩

theorem isQuiet_record (event : Event) : (record event).IsQuiet := ⟨rfl, rfl⟩

/-- A report of no faults is quiet. -/
theorem isQuiet_report {faults : List Fault} (h : faults = []) : (report faults).IsQuiet := ⟨h, rfl⟩

/-- A step is quiet if its parts are. -/
theorem IsQuiet.bind (hx : x.IsQuiet) (hf : (f x.value).IsQuiet) : (x >>= f).IsQuiet := by
  refine ⟨?_, ?_⟩
  · rw [notes_bind, Notes.faults_append, hx.faults, hf.faults]
    rfl
  · rw [notes_bind, Notes.imports_append, hx.imports, hf.imports]
    rfl

end Noted

/-- The run succeeds with the value and asks for no package. -/
structure Run.Gives (x : Run α) (a : α) : Prop where
  outcome : x.outcome = .ok a
  imports : x.imports = []

namespace Run

variable {x : Run α} {f : α → Run β} {a : α} {b : β}

theorem gives_pure (a : α) : (pure a : Run α).Gives a := ⟨rfl, rfl⟩

theorem gives_record (event : Event) : (record event).Gives () := ⟨rfl, rfl⟩

/-- A run gives what its last part gives. -/
theorem Gives.bind (hx : x.Gives a) (hf : (f a).Gives b) : (x >>= f).Gives b := by
  obtain ⟨hx, himports⟩ := hx
  refine ⟨?_, ?_⟩
  · simp only [Bind.bind, hx]
    exact hf.outcome
  · simp only [Bind.bind, hx, himports, hf.imports]
    rfl

/-- A run that asks for no package gives none along with its value. -/
theorem Gives.withImports (hx : x.Gives a) : x.withImports.Gives (a, []) := by
  obtain ⟨hx, himports⟩ := hx
  refine ⟨?_, himports⟩
  show x.outcome.map (fun a => (a, x.imports)) = .ok (a, [])
  rw [hx, himports]
  rfl

end Run

/-- A quiet step succeeds. -/
theorem Noted.IsQuiet.run {x : Noted α} (h : x.IsQuiet) : x.run.Gives x.value :=
  ⟨Noted.outcome_eq_ok.mpr ⟨h.faults, rfl⟩, h.imports⟩

/-- A pass that keeps all elements keeps the list. -/
theorem mapM_eq_pure {m : Type → Type} [Monad m] [LawfulMonad m] {f : α → m α} {as : List α}
    (h : ∀ a ∈ as, f a = pure a) : as.mapM f = pure as := by
  induction as with
  | nil => rfl
  | cons a rest ih =>
    obtain ⟨ha, hrest⟩ := List.forall_mem_cons.mp h
    rw [List.mapM_cons, ha, pure_bind, ih hrest, pure_bind]

end Quiet

/-! ### Stable items -/

namespace Item

/-- What the code of an item may hold once errors are propagated. The function literals of a
constant are never lowered, so there it is only the types that count. -/
def allows : Item → Node → Bool
  | const _ => Node.isTyped
  | _ => Node.isPropagated

/-- The item is a constant whose value has a `try`. -/
def hasAttempt : Item → Bool
  | const decl => decl.value.containsAttempt
  | _ => false

/-- A function returns what its signature says. -/
def Agrees (table : SignatureTable) : Item → Prop
  | func decl => ∃ sig, table.get? decl.key = some sig ∧ sig.clause = decl.returns
  | _ => True

/-- The item is one that no pass has anything to do for. -/
structure IsStable (item : Item) : Prop where
  nodes : item.isWithin (Node.isExpanded item.allows) = true
  clause : Ty.isClause item.returns? = true
  binding : item.hasBinding = false
  attempt : item.hasAttempt = false

variable {item : Item}

/-- What an item allows has plain types. -/
theorem isTyped_of_allows {node : Node} (h : item.allows node = true) : node.isTyped = true := by
  cases item with
  | const decl => exact h
  | _ => exact Node.isTyped_of_isPropagated h

/-- The nodes of a stable item are allowed in it. -/
theorem IsStable.isWithin_allows (h : item.IsStable) : item.isWithin item.allows = true :=
  isWithin_mono (fun _ hnode => (Bool.and_eq_true_iff.mp hnode).1) h.nodes

/-- The nodes of a stable item have plain types. -/
theorem IsStable.isWithin_isTyped (h : item.IsStable) : item.isWithin Node.isTyped = true :=
  isWithin_mono (fun _ => isTyped_of_allows) h.isWithin_allows

/-- A stable item has no template. -/
theorem IsStable.isWithin_notTemplate (h : item.IsStable) :
    item.isWithin (fun node => !node.isTemplate) = true :=
  isWithin_mono (fun _ hnode => (Bool.and_eq_true_iff.mp hnode).2) h.nodes

end Item

/-- The unit consists of stable items, and functions with one key agree on what they return. -/
structure Program.IsStable (program : Program) : Prop where
  items : ∀ item ∈ program.items, item.IsStable
  clauses : ∀ f g, .func f ∈ program.items → .func g ∈ program.items → f.key = g.key →
    f.returns = g.returns

/-! ### Signatures of a stable unit -/

namespace SignatureTable

variable {policy : OptionPolicy} {table : SignatureTable} {items : List Item}

/-- Every signature is that of a function among the items. -/
def Describes (policy : OptionPolicy) (items : List Item) (table : SignatureTable) : Prop :=
  ∀ key, ∀ sig ∈ table.get? key, ∃ f, .func f ∈ items ∧ f.key = key ∧
    sig.params = f.params.map (·.ty) ∧ ReturnShape.ofClause policy f.returns = .ok sig.returns

/-- No function of the table can fail, its types are plain, and the items agree with it. -/
structure Fits (items : List Item) (table : SignatureTable) : Prop where
  safe : table.IsSafe
  plain : table.IsPlain
  declared : ∀ key, ∀ sig ∈ table.get? key,
    (∀ t ∈ sig.params, t.isPlain = true) ∧ ∀ t ∈ sig.returns.declared, t.isPlain = true
  agrees : ∀ item ∈ items, item.Agrees table

/-- Recording an item adds at most the signature of a function. -/
theorem describes_recordItem (h : table.Describes policy items) {item : Item}
    (hitem : item ∈ items) : (table.recordItem policy item).value.Describes policy items := by
  cases item with
  | func decl =>
    cases hshape : ReturnShape.ofClause policy decl.returns with
    | error cause =>
      simp only [recordItem, hshape]
      exact h
    | ok shape =>
      simp only [recordItem, hshape]
      intro key sig hsig
      by_cases hkey : key = decl.key
      · rw [Noted.value_bind, Noted.value_pure, hkey, get?_insert_self] at hsig
        cases hsig
        exact ⟨decl, hitem, hkey.symm, rfl, hshape⟩
      · rw [Noted.value_bind, Noted.value_pure, get?_insert_of_ne hkey] at hsig
        exact h key sig hsig
  | _ => exact h

theorem describes_foldlM_recordItem : ∀ (rest : List Item) {table : SignatureTable},
    table.Describes policy items → (∀ item ∈ rest, item ∈ items) →
      (rest.foldlM (recordItem policy) table).value.Describes policy items
  | [], _, h, _ => h
  | item :: rest, _, h, hmem => by
    obtain ⟨hitem, hrest⟩ := List.forall_mem_cons.mp hmem
    rw [List.foldlM_cons]
    exact describes_foldlM_recordItem rest (describes_recordItem h hitem) hrest

/-- Every signature of a table is that of an item that the table was made from. -/
theorem describes_ofItems (policy : OptionPolicy) (items : List Item) :
    (ofItems policy items).value.Describes policy items :=
  describes_foldlM_recordItem items nofun fun _ => id

/-- Recording an item with a return clause of the base language reports nothing. -/
theorem isQuiet_recordItem (table : SignatureTable) {item : Item}
    (h : Ty.isClause item.returns? = true) : (table.recordItem policy item).IsQuiet := by
  cases item with
  | func decl =>
    have hclause : Ty.isClause decl.returns = true := h
    obtain ⟨ts, -, -, hshape⟩ := ReturnShape.ofClause_of_isClause policy hclause
    simp only [recordItem, hshape]
    exact (Noted.isQuiet_record _).bind (Noted.isQuiet_pure _)
  | _ => exact Noted.isQuiet_pure _

theorem isQuiet_foldlM_recordItem : ∀ (items : List Item) (table : SignatureTable),
    (∀ item ∈ items, Ty.isClause item.returns? = true) →
      (items.foldlM (recordItem policy) table).IsQuiet
  | [], table, _ => Noted.isQuiet_pure table
  | item :: rest, table, h => by
    obtain ⟨hitem, hrest⟩ := List.forall_mem_cons.mp h
    rw [List.foldlM_cons]
    exact (isQuiet_recordItem table hitem).bind (isQuiet_foldlM_recordItem rest _ hrest)

end SignatureTable

/-! ### The passes -/

section Passes

variable {program : Program} {table : SignatureTable} (settings : Settings)

theorem Program.IsStable.isClause_returns (h : program.IsStable) {f : Function}
    (hf : .func f ∈ program.items) : Ty.isClause f.returns = true :=
  (h.items (.func f) hf).clause

/-- The signatures of a stable unit are found without a fault, and they fit its functions. -/
theorem Program.IsStable.fits_ofItems (h : program.IsStable) (policy : OptionPolicy) :
    (SignatureTable.ofItems policy program.items).IsQuiet ∧
      (SignatureTable.ofItems policy program.items).value.Fits program.items := by
  have hquiet : (SignatureTable.ofItems policy program.items).IsQuiet :=
    SignatureTable.isQuiet_foldlM_recordItem _ _ fun item hitem => (h.items item hitem).clause
  have hempty : SignatureTable.IsPlain {} := fun _ _ h => nomatch h
  obtain ⟨hplain, -, hknown⟩ :=
    SignatureTable.foldlM_recordItem_yields program.items hempty hquiet.faults
  have hdescribes := SignatureTable.describes_ofItems policy program.items
  refine ⟨hquiet, ?safe, hplain, ?declared, ?agrees⟩
  case safe =>
    intro key sig hsig
    obtain ⟨f, hf, -, -, hshape⟩ := hdescribes key sig hsig
    exact (ReturnShape.eq_of_isClause (h.isClause_returns hf) hshape).1
  case declared =>
    intro key sig hsig
    obtain ⟨f, hf, -, hparams, hshape⟩ := hdescribes key sig hsig
    refine ⟨?_, (ReturnShape.eq_of_isClause (h.isClause_returns hf) hshape).2.2⟩
    rw [hparams, List.forall_mem_map]
    intro p hp
    exact (Item.isWithin_func.mp (h.items _ hf).nodes).1 p (List.mem_append_right _ hp)
  case agrees =>
    intro item hitem
    cases item with
    | func f =>
      obtain ⟨sig, hsig⟩ := Option.isSome_iff_exists.mp (hknown f hitem)
      -- The signature may be that of another function with the key, which returns the same.
      obtain ⟨g, hg, hkey, -, hshape⟩ := hdescribes f.key sig hsig
      have hclause : sig.clause = g.returns :=
        (ReturnShape.eq_of_isClause (h.isClause_returns hg) hshape).2.1
      exact ⟨sig, hsig, hclause.trans (h.clauses g f hg hitem hkey)⟩
    | _ => trivial

/-- A stable item has no fault that the checks of the source find. -/
theorem Item.IsStable.sourceFaults_eq_nil {item : Item} (h : item.IsStable) {items : List Item}
    (htable : table.Fits items) : item.sourceFaults table = [] := by
  cases item with
  | func f => exact NilFlow.checkFunction_eq_nil htable.plain htable.declared h.isWithin_allows
  | enum decl => exact Enum.payloadFaults_eq_nil h.isWithin_isTyped
  | _ => rfl

/-- Type lowering keeps a stable unit, and its table fits the unit. -/
theorem lowerTypes_of_isStable (h : program.IsStable) :
    ∃ table, (lowerTypes settings program).run.Gives (program, table) ∧
      table.Fits program.items := by
  let policy := settings.optionPolicy
  obtain ⟨hquiet, hfits⟩ := h.fits_ofItems policy
  let table := (SignatureTable.ofItems policy program.items).value
  have hsource : program.items.flatMap (Item.sourceFaults table) = [] :=
    List.flatMap_eq_nil_iff.mpr fun item hitem => (h.items item hitem).sourceFaults_eq_nil hfits
  have htypes : program.items.flatMap (Item.typeFaults policy) = [] :=
    List.flatMap_eq_nil_iff.mpr fun item hitem =>
      Item.typeFaults_eq_nil policy (h.items item hitem).isWithin_isTyped
  have hitems : program.items.map (Item.mapTypes (Ty.lowered policy)) = program.items := by
    rw [List.map_congr_left fun item hitem =>
      Item.mapTypes_lowered policy (h.items item hitem).isWithin_isTyped, List.map_id']
  have hpass : (lowerTypes settings program).IsQuiet :=
    hquiet.bind ((Noted.isQuiet_report hsource).bind
      ((Noted.isQuiet_report htypes).bind (Noted.isQuiet_pure _)))
  have hvalue : (lowerTypes settings program).value = (program, table) := by
    show ({ program with items := program.items.map _ }, table) = (program, table)
    rw [hitems]
  exact ⟨table, hvalue ▸ hpass.run, hfits⟩

/-- Error propagation keeps a stable item. -/
theorem Propagation.lowerItem_eq_pure (htable : table.IsSafe) {item : Item}
    (hagrees : item.Agrees table) (h : item.IsStable) :
    lowerItem table settings item = pure item := by
  cases item with
  | func f =>
    obtain ⟨sig, hsig, hclause⟩ := hagrees
    obtain ⟨-, hbody⟩ := Item.isWithin_func.mp h.isWithin_allows
    simp only [lowerItem, hsig]
    rw [lowerFunction_eq_pure htable settings hsig hclause hbody, pure_bind]
  | const c =>
    have hattempt : c.value.containsAttempt = false := h.attempt
    simp only [lowerItem, hattempt]
    rfl
  | _ => rfl

/-- Error propagation keeps a stable unit. -/
theorem propagateErrors_of_isStable (htable : table.Fits program.items) (h : program.IsStable) :
    propagateErrors table settings program = pure program := by
  rw [propagateErrors, mapM_eq_pure fun item hitem =>
    Propagation.lowerItem_eq_pure settings htable.safe (htable.agrees item hitem)
      (h.items item hitem), pure_bind]

/-- Task dispatch keeps an item without go-bindings. -/
theorem Dispatch.lowerItem_eq_pure (table : SignatureTable) {item : Item}
    (h : item.hasBinding = false) : lowerItem table settings item = pure item := by
  cases item with
  | func f =>
    have hbinding : f.body.hasBinding = false := h
    simp only [lowerItem, hbinding]
    rfl
  | _ => rfl

/-- Task dispatch keeps a stable unit and adds no support item. -/
theorem dispatchTasks_of_isStable (table : SignatureTable) (h : program.IsStable) :
    dispatchTasks table settings program = pure program := by
  have hitems : program.items.mapM (Dispatch.lowerItem table settings) = pure program.items :=
    mapM_eq_pure fun item hitem =>
      Dispatch.lowerItem_eq_pure settings table (h.items item hitem).binding
  -- Nothing is dispatched, so no support code is added and no package is asked for.
  rw [dispatchTasks, hitems]
  rfl

/-- The expansion of templates keeps a stable unit. -/
theorem expandTemplates_of_isStable (h : program.IsStable) :
    expandTemplates settings program = pure program := by
  rw [expandTemplates, mapM_eq_pure fun item hitem =>
    Item.expandTemplates_eq_pure (h.items item hitem).isWithin_notTemplate, pure_bind]

/-- All passes together keep a stable unit. -/
theorem lowerPasses_of_isStable (h : program.IsStable) :
    (lowerPasses settings program).Gives program := by
  obtain ⟨table, htypes, htable⟩ := lowerTypes_of_isStable settings h
  refine (Run.gives_record _).bind (htypes.bind ((Run.gives_record _).bind ?_))
  simp only [propagateErrors_of_isStable settings htable h]
  refine (Noted.isQuiet_pure program).run.bind ((Run.gives_record _).bind ?_)
  simp only [Noted.value_pure, dispatchTasks_of_isStable settings table h]
  refine (Noted.isQuiet_pure program).run.bind ((Run.gives_record _).bind ?_)
  simp only [Noted.value_pure, expandTemplates_of_isStable settings h]
  exact (Noted.isQuiet_pure program).run.bind ((Run.gives_record _).bind (Run.gives_pure _))

/-- Lowering gives a stable unit as it is. -/
theorem lower_of_isStable (h : program.IsStable) : (lower settings program).Gives program :=
  -- No package is required, so the imports are neither added to nor sorted.
  (lowerPasses_of_isStable settings h).withImports.bind (Run.gives_pure program)

end Passes

end Desugar
