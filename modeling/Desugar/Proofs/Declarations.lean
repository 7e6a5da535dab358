import Desugar.Proofs.Dispatch.Survey
import Desugar.Proofs.Imports
import Desugar.Proofs.Lowering
import Desugar.Proofs.Propagation.Headers
import Desugar.Proofs.Tree.Bindings

/-!
# The declarations of a lowered unit

Every pass rewrites bodies, types and values inside the items of a unit and leaves the items in
their places. The only item that is ever added is the support code of states, behind all others. It
is added if a task is dispatched, and this happens exactly if a function has a go-binding. The
search that decides which functions are looked at does not find go-bindings that stand in loop
headers, so there have to be none.

- `Item.heading`: what the passes keep of an item.
- `Dispatch.dispatches`: a task is dispatched in a unit.
- `lower_declarations`: the headings of a lowered unit.
-/

namespace Desugar

/-- An item without what the passes rewrite in it. -/
inductive Heading where
  | func (name : String) (receiver : Option String) (params : List String)
  | struct (name : String) (fields : List String)
  | enum (decl : Enum)
  | const (name : String)
  | support (stem : String)

namespace Item

/-- What the passes keep of an item: its kind and its name, the names of the receiver and the
parameters of a function, the names of the fields of a struct, and all of an enum. -/
def heading : Item → Heading
  | func f => .func f.name (f.receiver.map (·.name)) (f.params.map (·.name))
  | struct s => .struct s.name (s.fields.map (·.name))
  | enum e => .enum e
  | const c => .const c.name
  | support stem => .support stem

/-! ### What each pass makes of an item -/

/-- A rewriting of types keeps the heading. -/
theorem heading_mapTypes (f : Ty → Ty) (item : Item) :
    (item.mapTypes f).heading = item.heading := by
  cases item with
  | func decl => simp [mapTypes, heading, Param.mapType, Function.comp_def]
  | struct decl => simp [mapTypes, heading, Param.mapType]
  | _ => rfl

/-- The expansion of templates keeps the heading. -/
theorem heading_expandTemplates (function : String) (item : Item) :
    (item.expandTemplates function).value.heading = item.heading := by
  cases item with
  | _ => rfl

/-- A pass that keeps the heading of each item keeps the list of headings. -/
theorem map_heading_mapM {pass : Item → Noted Item}
    (h : ∀ item, (pass item).value.heading = item.heading) (items : List Item) :
    (items.mapM pass).value.map heading = items.map heading := by
  rw [Noted.value_mapM, List.map_map]
  exact List.map_congr_left fun item _ => h item

/-- Support code is known by its heading. -/
theorem isSupport_congr {item item' : Item} (h : item.heading = item'.heading) :
    Dispatch.isSupport item = Dispatch.isSupport item' := by
  cases item <;> cases item' <;> first | rfl | cases h

end Item

/-- Error propagation keeps the heading. -/
theorem Propagation.heading_lowerItem (table : SignatureTable) (settings : Settings) (item : Item) :
    (lowerItem table settings item).value.heading = item.heading := by
  cases item with
  | func f =>
    rw [lowerItem]
    cases table.get? f.key <;> rfl
  | const c =>
    rw [lowerItem]
    split <;> rfl
  | _ => rfl

/-- Task dispatch keeps the heading. -/
theorem Dispatch.heading_lowerItem (table : SignatureTable) (settings : Settings) (item : Item) :
    (lowerItem table settings item).value.heading = item.heading := by
  cases item with
  | func f =>
    rw [lowerItem]
    split <;> rfl
  | _ => rfl

/-! ### Tasks -/

namespace Dispatch

variable (table : SignatureTable) (settings : Settings)

/-- A task is dispatched in one of the items. -/
def dispatches (items : List Item) : Bool :=
  (items.mapM (lowerItem table settings)).notes.events.any Event.isDispatch

/-- In the survey of go-bindings, the dispatch of a task counts as much as a go-binding. -/
theorem notesTasks_bindingSurvey : (bindingSurvey Event.isDispatch).NotesTasks where
  settled := rfl
  name _ := rfl
  bind _ _ _ _ := le_top

/-- What has a go-binding before the pass and none after it has been dispatched. -/
theorem any_isDispatch_lowerItem {f : Function} (hbinding : f.body.hasBinding = true)
    (hfaults : (lowerItem table settings (.func f)).notes.faults = []) :
    (lowerItem table settings (.func f)).notes.events.any Event.isDispatch = true := by
  obtain ⟨f', hf'⟩ : ∃ f', (lowerItem table settings (.func f)).value = .func f' :=
    ⟨_, by rw [lowerItem, if_pos hbinding]; rfl⟩
  have hunbound : f'.body.hasBinding = false := by
    have := lowerItem_unbinds table settings (.func f) hfaults
    rwa [hf'] at this
  -- What is found in the source is found in the result or noted, and it is not in the result.
  have hcovers := lowerItem_gathers notesTasks_bindingSurvey table settings (.func f) hfaults
  rw [hf'] at hcovers
  have hfound (f : Function) :
      ((bindingSurvey Event.isDispatch).item (.func f)).1 = f.body.hasBinding :=
    congrArg Prod.fst (f.body.found_eq Event.isDispatch false).symm
  have hfirst := hcovers.1
  rw [Prod.fst_sup, hfound, hfound, hbinding, hunbound] at hfirst
  exact top_le_iff.mp (hfirst.trans (bot_sup_eq _).le)

/-- Tasks are dispatched if and only if a go-binding is found. -/
theorem dispatches_iff {items : List Item}
    (hfaults : (items.mapM (lowerItem table settings)).notes.faults = []) :
    dispatches table settings items = true ↔
      ∃ f, .func f ∈ items ∧ f.body.hasBinding = true := by
  rw [Noted.faults_mapM, List.flatMap_eq_nil_iff] at hfaults
  rw [dispatches, Noted.events_mapM, List.any_flatMap, List.any_eq_true]
  constructor
  · rintro ⟨item, hitem, hdispatch⟩
    cases item with
    | func f =>
      refine ⟨f, hitem, ?_⟩
      by_contra hnone
      rw [lowerItem, if_neg hnone] at hdispatch
      cases hdispatch
    | _ => cases hdispatch
  · rintro ⟨f, hf, hbinding⟩
    exact ⟨.func f, hf, any_isDispatch_lowerItem table settings hbinding (hfaults _ hf)⟩

end Dispatch

/-- Task dispatch adds the support item and the import of `sync` if a task is dispatched, and
otherwise only rewrites the items. -/
theorem dispatchTasks_eq (table : SignatureTable) (settings : Settings) (program : Program) :
    dispatchTasks table settings program =
      program.items.mapM (Dispatch.lowerItem table settings) >>= fun items =>
        if Dispatch.dispatches table settings program.items then
          Noted.require ["sync"] >>= fun _ =>
            pure { program with items := Dispatch.withSupport settings.stem items }
        else pure { program with items } :=
  rfl

/-- Support code is added behind the items of a unit if a task is dispatched. -/
theorem map_heading_dispatchTasks (table : SignatureTable) (settings : Settings)
    {program : Program} (hsupport : ∀ item ∈ program.items, Dispatch.isSupport item = false) :
    (dispatchTasks table settings program).value.items.map Item.heading =
      program.items.map Item.heading ++
        if Dispatch.dispatches table settings program.items then [.support settings.stem]
        else [] := by
  have hitems :=
    Item.map_heading_mapM (Dispatch.heading_lowerItem table settings) program.items
  have hnone : (program.items.mapM (Dispatch.lowerItem table settings)).value.any
      Dispatch.isSupport = false := by
    rw [Noted.value_mapM, List.any_map, List.any_eq_false]
    intro item hitem
    rw [Function.comp_apply,
      Item.isSupport_congr (Dispatch.heading_lowerItem table settings item), hsupport item hitem]
    exact Bool.false_ne_true
  rw [dispatchTasks_eq, Noted.value_bind]
  by_cases hdispatches : Dispatch.dispatches table settings program.items = true
  · rw [if_pos hdispatches, if_pos hdispatches, ← hitems]
    rw [Noted.value_bind, Noted.value_pure, Dispatch.withSupport, hnone,
      if_neg Bool.false_ne_true, List.map_append]
    rfl
  · rw [if_neg hdispatches, if_neg hdispatches, ← hitems, List.append_nil]
    rfl

/-- A unit in which a task is dispatched imports `sync`. -/
theorem sync_mem_dispatchTasks {table : SignatureTable} {settings : Settings} {program : Program}
    (h : Dispatch.dispatches table settings program.items = true) :
    "sync" ∈ (dispatchTasks table settings program).notes.imports := by
  rw [dispatchTasks_eq, Noted.notes_bind, if_pos h]
  exact List.mem_append_right _ List.mem_cons_self

/-! ### Go-bindings before and after error propagation -/

/-- If the node is a loop, its header has only simple statements, and no go-bindings among them. -/
def Node.hasSimpleHeader : Node → Bool
  | .stmt (.loop clause _ _) => clause.isSimple
  | _ => true

/-- The functions of a unit are those among its items. -/
theorem Program.mem_functions {program : Program} {f : Function} :
    f ∈ program.functions ↔ .func f ∈ program.items := by
  rw [functions, List.mem_filterMap]
  constructor
  · rintro ⟨item, hitem, hfunc⟩
    cases item with
    | func f' =>
      cases hfunc
      exact hitem
    | _ => cases hfunc
  · exact fun hf => ⟨.func f, hf, rfl⟩

/-- A function of the unit has a go-binding, at any depth. -/
def Program.hasBinding (program : Program) : Bool :=
  program.functions.any fun f => f.body.nodes.any Node.isBind

/-- A unit has a go-binding if a node of one of its functions is one. -/
theorem Program.hasBinding_iff {program : Program} :
    program.hasBinding = true ↔
      ∃ f, .func f ∈ program.items ∧ ∃ node ∈ f.body.nodes, node.isBind = true := by
  simp only [hasBinding, List.any_eq_true, mem_functions]

/-- A simple statement neither is nor contains a go-binding. -/
theorem Stmt.isBind_of_mem_steps {header stmt : Stmt} (hsimple : header.isSimple = true)
    (hstmt : stmt ∈ header.steps) : stmt.isBind = false := by
  cases header with
  | cond | loop | bind | block => cases hsimple
  | _ =>
    obtain rfl := List.mem_singleton.mp hstmt
    rfl

/-- With simple loop headers all go-bindings are found. -/
theorem Block.hasBinding_of_mem_nodes {body : Block}
    (hheaders : Within Node.hasSimpleHeader body.nodes) {node : Node} (hnode : node ∈ body.nodes)
    (hbind : node.isBind = true) : body.hasBinding = true := by
  obtain ⟨names, call, span, rfl⟩ : ∃ names call span, node = .stmt (.bind names call span) := by
    match node with
    | .stmt (.bind names call span) => exact ⟨names, call, span, rfl⟩
  -- A go-binding that is not found stands in a loop header, but not among simple statements.
  by_contra hnone
  obtain ⟨first, condition, post, inner, span, hloop, header, hheader, hstep⟩ :=
    Block.inHeader_of_hasBinding_eq_false (Bool.eq_false_iff.mpr hnone) hnode rfl
  have hclause : first.all Stmt.isSimple = true ∧ post.all Stmt.isSimple = true :=
    Bool.and_eq_true_iff.mp (hheaders _ hloop)
  have hsimple : header.isSimple = true := by
    rcases hheader with rfl | rfl
    · exact hclause.1
    · exact hclause.2
  cases Stmt.isBind_of_mem_steps hsimple hstep

/-- A rewriting of types keeps go-bindings what they are. -/
theorem Node.isBind_mapTypes (f : Ty → Ty) (node : Node) :
    (node.mapTypes f).isBind = node.isBind := by
  cases node with
  | stmt stmt => cases stmt <;> rfl
  | expr _ => rfl

/-- A rewriting of types neither adds nor removes a go-binding in a block. -/
theorem Block.hasBinding_mapTypes (f : Ty → Ty) (body : Block) :
    (body.mapTypes f).hasBinding = body.hasBinding := by
  let counts : Event → Bool := fun _ => false
  have hfound : (body.mapTypes f).found false = body.found false := by
    rw [Block.found_eq counts, Block.found_eq counts, Survey.block_mapTypes]
  exact congrArg Prod.fst hfound

/-- Error propagation makes no go-binding of its own. -/
theorem Propagation.carries_notBind :
    Carries (fun node => !node.isBind) (fun node => !node.isBind) where
  toIsLocal := Node.isLocal_notBind
  kept _ h := h
  func _ _ := rfl
  loop _ _ := rfl

/-- Error propagation makes no go-binding. -/
theorem Propagation.lowerItem_noBind {table : SignatureTable} {settings : Settings} {item : Item}
    (h : ∀ f, item = .func f → NoBind f.body.nodes) :
    (lowerItem table settings item).Yields fun item' =>
      ∀ f, item' = .func f → NoBind f.body.nodes := by
  cases item with
  | func f =>
    cases hsig : table.get? f.key with
    | none =>
      simp only [lowerItem, hsig]
      exact .pure h
    | some sig =>
      simp only [lowerItem, hsig]
      refine (lowerFunction_yields carries_notBind (h f rfl)).bind fun f' hf' => .pure ?_
      obtain ⟨body, rfl, hbody⟩ := hf'
      rintro _ ⟨⟩
      exact hbody
  | const c =>
    rw [lowerItem]
    split
    · exact Noted.yields_report_bind _
    · exact .pure fun f hfunc => by cases hfunc
  | _ => exact .pure fun f hfunc => by cases hfunc

/-- After error propagation, go-bindings are found if and only if the source has any. -/
theorem exists_hasBinding_iff {settings : Settings} {program typed propagated : Program}
    {table : SignatureTable}
    (hheaders : ∀ f, .func f ∈ program.items → Within Node.hasSimpleHeader f.body.nodes)
    (htyped : (lowerTypes settings program).outcome = .ok (typed, table))
    (hpropagated : (propagateErrors table settings typed).outcome = .ok propagated) :
    (∃ f, .func f ∈ propagated.items ∧ f.body.hasBinding = true) ↔ program.hasBinding = true := by
  obtain ⟨hmapped, -⟩ := (lowerTypes_yields settings program).of_outcome htyped
  constructor
  · -- Neither the types nor error propagation make one.
    rintro ⟨f', hf', hfound⟩
    by_contra hnone
    have hsource : ∀ item ∈ typed.items, ∀ f, item = .func f → NoBind f.body.nodes := by
      rintro _ hitem f rfl node hnode
      obtain ⟨origin, horigin, hmap⟩ := List.mem_map.mp (hmapped ▸ hitem)
      cases origin with
      | func f =>
        cases hmap
        rw [Block.nodes_mapTypes] at hnode
        obtain ⟨node, hmem, rfl⟩ := List.mem_map.mp hnode
        show (!(node.mapTypes _).isBind) = true
        rw [Node.isBind_mapTypes, Bool.not_eq_true', Bool.eq_false_iff]
        exact fun hbind => hnone (Program.hasBinding_iff.mpr ⟨f, horigin, node, hmem, hbind⟩)
      | _ => cases hmap
    have hpropagates : (propagateErrors table settings typed).Yields fun program' =>
        ∀ item ∈ program'.items, ∀ f, item = .func f → NoBind f.body.nodes := by
      refine (Noted.yields_mapM fun item hitem => ?_).bind fun _ hitems => .pure hitems
      exact Propagation.lowerItem_noBind (hsource item hitem)
    have hnodes := hpropagates.of_outcome hpropagated _ hf' f' rfl
    rw [Block.hasBinding, Block.hasBindingIn_eq_false false f'.body hnodes] at hfound
    cases hfound
  · -- Error propagation loses none that is found.
    intro hbinding
    obtain ⟨f, hf, node, hnode, hbind⟩ := Program.hasBinding_iff.mp hbinding
    have hitem : Item.mapTypes (Ty.lowered settings.optionPolicy) (.func f) ∈ typed.items := by
      rw [hmapped]
      exact List.mem_map_of_mem hf
    obtain ⟨f', hf', hle⟩ := (propagateErrors_covers table settings hitem).of_outcome hpropagated
    have hsource : (f.body.mapTypes (Ty.lowered settings.optionPolicy)).hasBinding = true := by
      rw [Block.hasBinding_mapTypes]
      exact Block.hasBinding_of_mem_nodes (hheaders f hf) hnode hbind
    exact ⟨f', hf', top_le_iff.mp (hsource.ge.trans hle.1)⟩

/-! ### The unit -/

/-- The passes keep the headings of a unit, and support code is added behind them if a task is
dispatched. -/
theorem map_heading_passes {settings : Settings} {table : SignatureTable}
    {program typed propagated dispatched expanded : Program}
    (hsupport : ∀ item ∈ program.items, Dispatch.isSupport item = false)
    (htyped : (lowerTypes settings program).outcome = .ok (typed, table))
    (hpropagated : (propagateErrors table settings typed).outcome = .ok propagated)
    (hdispatched : (dispatchTasks table settings propagated).outcome = .ok dispatched)
    (hexpanded : (expandTemplates settings dispatched).outcome = .ok expanded) :
    expanded.items.map Item.heading = program.items.map Item.heading ++
      (if Dispatch.dispatches table settings propagated.items then [.support settings.stem]
        else []) := by
  obtain ⟨hmapped, -⟩ := (lowerTypes_yields settings program).of_outcome htyped
  obtain ⟨-, rfl⟩ := Noted.outcome_eq_ok.mp hpropagated
  obtain ⟨-, rfl⟩ := Noted.outcome_eq_ok.mp hdispatched
  obtain ⟨-, rfl⟩ := Noted.outcome_eq_ok.mp hexpanded
  have hkept : (propagateErrors table settings typed).value.items.map Item.heading =
      program.items.map Item.heading := by
    calc (propagateErrors table settings typed).value.items.map Item.heading
        = typed.items.map Item.heading :=
          Item.map_heading_mapM (Propagation.heading_lowerItem table settings) typed.items
      _ = program.items.map Item.heading := by
          rw [hmapped, List.map_map]
          exact List.map_congr_left fun item _ => Item.heading_mapTypes _ item
  have hnone : ∀ item ∈ (propagateErrors table settings typed).value.items,
      Dispatch.isSupport item = false := by
    intro item hitem
    obtain ⟨source, hsource, hheading⟩ := List.mem_map.mp (hkept ▸ List.mem_map_of_mem hitem)
    rw [← Item.isSupport_congr hheading, hsupport source hsource]
  rw [← hkept, ← map_heading_dispatchTasks table settings hnone]
  exact Item.map_heading_mapM (Item.heading_expandTemplates settings.formatFunction) _

/-- **The declarations of a lowered unit.** A unit without support code, whose loop headers have
only simple statements and no go-bindings, keeps its name, its package and the headings of its
items, in their order. Support code is added behind them if and only if a function has a go-binding,
and then the package that it needs is imported. -/
theorem lower_declarations {settings : Settings} {program lowered : Program}
    (hsupport : ∀ item ∈ program.items, Dispatch.isSupport item = false)
    (hheaders : ∀ f, .func f ∈ program.items → Within Node.hasSimpleHeader f.body.nodes)
    (h : (lower settings program).outcome = .ok lowered) :
    lowered.name = program.name ∧ lowered.package = program.package ∧
      lowered.items.map Item.heading = program.items.map Item.heading ++
        (if program.hasBinding then [.support settings.stem] else []) ∧
      (program.hasBinding = true → ∃ entry ∈ lowered.imports, entry.path = "sync") := by
  obtain ⟨typed, table, propagated, dispatched, expanded, htyped, hpropagated, hdispatched,
    hexpanded, hname, hpackage, hitems, himports⟩ := lower_eq_passes h
  have hdispatches : Dispatch.dispatches table settings propagated.items = program.hasBinding := by
    have hfaults := (Noted.outcome_eq_ok.mp hdispatched).1
    rw [dispatchTasks_eq, Noted.notes_bind, Notes.faults_append, List.append_eq_nil_iff] at hfaults
    rw [Bool.eq_iff_iff, Dispatch.dispatches_iff table settings hfaults.1,
      exists_hasBinding_iff hheaders htyped hpropagated]
  refine ⟨hname, hpackage, ?_, fun hbinding => ?_⟩
  · rw [hitems, map_heading_passes hsupport htyped hpropagated hdispatched hexpanded, hdispatches]
  · have hsync := sync_mem_dispatchTasks (hdispatches.trans hbinding)
    rw [himports]
    exact Imports.has_require
      (List.mem_append_right _ (List.mem_append_right _ (List.mem_append_left _ hsync)))

/-- `sweep(n int)`, with a go-binding in a function literal that stands in a loop. -/
def sweepFunction : Function where
  name := "sweep"
  receiver := none
  params := [{ name := "n", ty := .named "int" }]
  returns := none
  body := .inserted [
    .loop (.three
        (some (.assign [.name "i"] .define [.int 0] .nowhere))
        (some (.binary .lt (.name "i") (.name "n") .nowhere))
        (some (.assign [.name "i"] (.update .add) [.int 1] .nowhere)))
      (.inserted [
        .assign [.name "f"] .define [.func [] none (.inserted
          [.bind [{ name := "a" }, { name := "_" }] (.apply (.name "load") [.name "i"]) .nowhere])
          .nowhere] .nowhere])
      .nowhere]

/-- A unit with a struct, a constant and two functions. -/
def sweeper : Program where
  name := "sweeper"
  package := "main"
  imports := [{ path := "sort" }]
  items := [
    .struct { name := "Conn", fields := [{ name := "next", ty := .option (.named "Conn") }] },
    .const limitConstant, .func loadFunction, .func sweepFunction]

/-- The unit `sweeper` keeps its declarations in their order, and the support item follows them. -/
theorem lower_declarations_sweeper :
    (∀ item ∈ sweeper.items, Dispatch.isSupport item = false) ∧
      (∀ f, .func f ∈ sweeper.items → Within Node.hasSimpleHeader f.body.nodes) ∧
      ∃ lowered, (lower {} sweeper).outcome = .ok lowered ∧
        lowered.name = "sweeper" ∧ lowered.package = "main" ∧
        lowered.items.map Item.heading = [.struct "Conn" ["next"], .const limitConstant.name,
          .func "load" none ["id"], .func "sweep" none ["n"], .support "gx"] ∧
        ∃ entry ∈ lowered.imports, entry.path = "sync" := by
  have hsupport : ∀ item ∈ sweeper.items, Dispatch.isSupport item = false := by decide
  have hheaders : ∀ f, .func f ∈ sweeper.items → Within Node.hasSimpleHeader f.body.nodes := by
    intro f hf
    simp only [sweeper, List.mem_cons, reduceCtorEq, Item.func.injEq, List.not_mem_nil, or_false,
      false_or] at hf
    unfold Within
    rcases hf with rfl | rfl <;> decide
  have hbinding : sweeper.hasBinding = true := by decide
  have hok : (lower {} sweeper).outcome.isOk = true := by decide +kernel
  obtain ⟨lowered, hlower⟩ := Emit.isOk_iff.mp hok
  obtain ⟨hname, hpackage, hheadings, hsync⟩ := lower_declarations hsupport hheaders hlower
  rw [if_pos hbinding] at hheadings
  exact ⟨hsupport, hheaders, lowered, hlower, hname, hpackage, hheadings, hsync hbinding⟩

end Desugar
