import Desugar.Compile
import Desugar.Proofs.Dispatch.Complete
import Desugar.Proofs.Propagation.Complete
import Desugar.Proofs.Template.Complete
import Desugar.Proofs.ValueTypes

/-!
# Lowering is complete

A unit that is lowered without a fault is in the base language. Each pass does its part for every
item (`lowerTypes_yields`, `propagateErrors_carries`, `dispatchTasks_keeps`,
`expandTemplates_keeps`), and the unit that one pass gives is the one that the next pass takes.

- `lower_carries`: what holds of the source nodes, and of inserted ones, holds of the lowered unit.
- `lower_isLowered`: nothing of the extended types, `try`, `throw` or templates is left.
-/

namespace Desugar

namespace Run

variable {α β : Type}

/-- A run succeeds if all its parts do. -/
theorem bind_eq_ok {x : Run α} {f : α → Run β} {b : β} (h : (x >>= f).outcome = .ok b) :
    ∃ a, x.outcome = .ok a ∧ (f a).outcome = .ok b := by
  cases hx : x.outcome with
  | ok a =>
    simp only [bind, hx] at h
    exact ⟨a, rfl, h⟩
  | error faults =>
    simp only [bind, hx] at h
    cases h

/-- The packages of two steps are asked for in order. -/
theorem imports_bind {x : Run α} {f : α → Run β} {a : α} (h : x.outcome = .ok a) :
    (x >>= f).imports = x.imports ++ (f a).imports := by
  simp only [bind, h]

/-- The packages that a run asks for come with its value. -/
theorem withImports_eq_ok {x : Run α} {a : α} {imports : List String}
    (h : x.withImports.outcome = .ok (a, imports)) : x.outcome = .ok a ∧ x.imports = imports := by
  change x.outcome.map _ = _ at h
  cases hx : x.outcome with
  | ok a' =>
    rw [hx] at h
    cases h
    exact ⟨rfl, rfl⟩
  | error faults =>
    rw [hx] at h
    cases h

end Run

/-- The units have the same name, package and imports. -/
structure Program.SameHead (program program' : Program) : Prop where
  name : program'.name = program.name
  package : program'.package = program.package
  imports : program'.imports = program.imports

theorem Program.SameHead.trans {p q r : Program} (h : p.SameHead q) (h' : q.SameHead r) :
    p.SameHead r :=
  ⟨h'.name.trans h.name, h'.package.trans h.package, h'.imports.trans h.imports⟩

/-- Task dispatch keeps the name, the package and the imports of a unit. -/
theorem dispatchTasks_sameHead (table : SignatureTable) (settings : Settings)
    (program : Program) :
    program.SameHead (dispatchTasks table settings program).value := by
  unfold dispatchTasks
  rw [Noted.value_bind]
  split <;> exact ⟨rfl, rfl, rfl⟩

/-- The passes only change the items of a unit. -/
theorem sameHead_of_passes {settings : Settings} {table : SignatureTable}
    {program typed propagated dispatched expanded : Program}
    (htyped : (lowerTypes settings program).outcome = .ok (typed, table))
    (hpropagated : (propagateErrors table settings typed).outcome = .ok propagated)
    (hdispatched : (dispatchTasks table settings propagated).outcome = .ok dispatched)
    (hexpanded : (expandTemplates settings dispatched).outcome = .ok expanded) :
    program.SameHead expanded := by
  obtain ⟨-, hvalue⟩ := Noted.outcome_eq_ok.mp htyped
  obtain ⟨-, rfl⟩ := Noted.outcome_eq_ok.mp hpropagated
  obtain ⟨-, rfl⟩ := Noted.outcome_eq_ok.mp hdispatched
  obtain ⟨-, rfl⟩ := Noted.outcome_eq_ok.mp hexpanded
  have htypes : program.SameHead typed := by
    rw [show typed = (lowerTypes settings program).value.1 from congrArg Prod.fst hvalue.symm]
    exact ⟨rfl, rfl, rfl⟩
  have hpropagates : typed.SameHead (propagateErrors table settings typed).value :=
    ⟨rfl, rfl, rfl⟩
  have hexpands (unit : Program) : unit.SameHead (expandTemplates settings unit).value :=
    ⟨rfl, rfl, rfl⟩
  exact (htypes.trans hpropagates).trans
    ((dispatchTasks_sameHead table settings _).trans (hexpands _))

/-- The passes of a successful lowering, each with the unit that it gives. The packages that they
ask for are imported at the end. -/
theorem lower_eq_passes {settings : Settings} {program lowered : Program}
    (h : (lower settings program).outcome = .ok lowered) :
    ∃ typed table propagated dispatched expanded,
      (lowerTypes settings program).outcome = .ok (typed, table) ∧
        (propagateErrors table settings typed).outcome = .ok propagated ∧
        (dispatchTasks table settings propagated).outcome = .ok dispatched ∧
        (expandTemplates settings dispatched).outcome = .ok expanded ∧
        lowered.name = program.name ∧ lowered.package = program.package ∧
        lowered.items = expanded.items ∧
        lowered.imports = Imports.require program.imports
          ((lowerTypes settings program).notes.imports ++
            ((propagateErrors table settings typed).notes.imports ++
              ((dispatchTasks table settings propagated).notes.imports ++
                (expandTemplates settings dispatched).notes.imports))) := by
  obtain ⟨⟨expanded, required⟩, hpasses, hlowered⟩ := Run.bind_eq_ok h
  cases hlowered
  obtain ⟨houtcome, himports⟩ := Run.withImports_eq_ok hpasses
  have hparts := houtcome
  obtain ⟨-, -, hparts⟩ := Run.bind_eq_ok hparts
  obtain ⟨⟨typed, table⟩, htyped, hparts⟩ := Run.bind_eq_ok hparts
  obtain ⟨-, -, hparts⟩ := Run.bind_eq_ok hparts
  obtain ⟨propagated, hpropagated, hparts⟩ := Run.bind_eq_ok hparts
  obtain ⟨-, -, hparts⟩ := Run.bind_eq_ok hparts
  obtain ⟨dispatched, hdispatched, hparts⟩ := Run.bind_eq_ok hparts
  obtain ⟨-, -, hparts⟩ := Run.bind_eq_ok hparts
  obtain ⟨expanded', hexpanded, hparts⟩ := Run.bind_eq_ok hparts
  obtain ⟨-, -, hparts⟩ := Run.bind_eq_ok hparts
  cases hparts
  have hhead := sameHead_of_passes htyped hpropagated hdispatched hexpanded
  refine ⟨typed, table, propagated, dispatched, expanded, htyped, hpropagated, hdispatched,
    hexpanded, hhead.name, hhead.package, rfl, ?_⟩
  show Imports.require expanded.imports _ = _
  rw [hhead.imports, ← himports, lowerPasses, Run.imports_bind rfl, Run.imports_bind htyped,
    Run.imports_bind rfl, Run.imports_bind hpropagated, Run.imports_bind rfl,
    Run.imports_bind hdispatched, Run.imports_bind rfl, Run.imports_bind hexpanded]
  change Imports.require program.imports (_ ++ (_ ++ (_ ++ (_ ++ [])))) = _
  rw [List.append_nil]
  rfl

/-- The passes of a successful lowering, each with the unit that it gives. -/
theorem passes_of_lower {settings : Settings} {program lowered : Program}
    (h : (lower settings program).outcome = .ok lowered) :
    ∃ typed table propagated dispatched expanded,
      (lowerTypes settings program).outcome = .ok (typed, table) ∧
        (propagateErrors table settings typed).outcome = .ok propagated ∧
        (dispatchTasks table settings propagated).outcome = .ok dispatched ∧
        (expandTemplates settings dispatched).outcome = .ok expanded ∧
        lowered.items = expanded.items := by
  obtain ⟨typed, table, propagated, dispatched, expanded, htyped, hpropagated, hdispatched,
    hexpanded, -, -, hitems, -⟩ := lower_eq_passes h
  exact ⟨typed, table, propagated, dispatched, expanded, htyped, hpropagated, hdispatched,
    hexpanded, hitems⟩

/-- A property that error propagation carries over, and that holds of the source with its types
lowered, holds of the lowered unit. -/
theorem lower_carries {source target : Node → Bool} (hcarries : Propagation.Carries source target)
    {settings : Settings} {program lowered : Program}
    (hreceivers : ∀ f, .func f ∈ program.items → ∀ r ∈ f.receiver, r.ty.isReceiver = true)
    (hconstants : ∀ c, .const c ∈ program.items → ∀ node ∈ c.value.nodes, node.isFunc = false)
    (hsource : ∀ item ∈ program.items, ∀ node ∈ item.nodes,
      source (node.mapTypes (Ty.lowered settings.optionPolicy)) = true)
    (h : (lower settings program).outcome = .ok lowered) :
    ∀ item ∈ lowered.items,
      item.isWithin (Node.isExpanded fun node => node.isPropagated && target node) = true ∧
        Ty.isClause item.returns? = true := by
  obtain ⟨typed, table, propagated, dispatched, expanded, htyped, hpropagated, hdispatched,
    hexpanded, hlowered⟩ := passes_of_lower h
  obtain ⟨hmapped, htypes, htable, -⟩ := (lowerTypes_yields settings program).of_outcome htyped
  have hkeys := (lowerTypes_knows settings hreceivers).of_outcome htyped
  have hliterals := (lowerTypes_constants settings hconstants).of_outcome htyped
  have hitems : ∀ item ∈ typed.items,
      item.isWithin (fun node => node.isTyped && source node) = true := by
    intro item hitem
    obtain ⟨hdecl, hnodes⟩ := Item.isWithin_iff.mp (htypes item hitem)
    refine Item.isWithin_iff.mpr ⟨hdecl, fun node hnode => ?_⟩
    refine Bool.and_eq_true_iff.mpr ⟨hnodes node hnode, ?_⟩
    obtain ⟨origin, horigin, rfl⟩ := List.mem_map.mp (hmapped ▸ hitem)
    rw [Item.nodes_mapTypes] at hnode
    obtain ⟨node, hmem, rfl⟩ := List.mem_map.mp hnode
    exact hsource origin horigin node hmem
  -- What an earlier pass removed stays away together with the carried property.
  have hboth := Propagation.carries_isTyped.and hcarries
  have hpropagates := propagateErrors_carries hboth settings htable hitems hkeys hliterals
  have hdispatches :=
    dispatchTasks_keeps hboth.toIsLocal settings htable (hpropagates.of_outcome hpropagated)
  have hexpands :=
    expandTemplates_keeps hboth.toIsLocal settings (hdispatches.of_outcome hdispatched)
  rw [hlowered]
  exact hexpands.of_outcome hexpanded

/-- Nothing is asked of the nodes. -/
theorem Propagation.carries_anything : Carries (fun _ => true) fun _ => true where
  shell _ := rfl
  inserted _ _ := rfl
  kept _ _ := rfl
  func _ _ := rfl
  loop _ _ := rfl

/-- What all passes leave of an item is in the base language. -/
theorem Item.isLowered_of_isExpanded {target : Node → Bool} {item : Item}
    (h : item.isWithin (Node.isExpanded fun node => node.isPropagated && target node) = true)
    (hclause : Ty.isClause item.returns? = true) : item.isLowered = true := by
  refine Bool.and_eq_true_iff.mpr ⟨isWithin_mono (fun node hnode => ?_) h, hclause⟩
  obtain ⟨hboth, htemplate⟩ := Bool.and_eq_true_iff.mp hnode
  rw [Node.isLowered_eq, (Bool.and_eq_true_iff.mp hboth).1, htemplate]
  rfl

/-! ### Constants -/

section Constants

variable (table : SignatureTable) (settings : Settings) (item : Item)

/-- Error propagation leaves constants as they are. -/
theorem Propagation.lowerItem_const :
    (lowerItem table settings item).Yields fun item' =>
      ∀ c, item' = .const c → item = .const c := by
  cases item with
  | func f =>
    cases hsig : table.get? f.key with
    | some sig =>
      simp only [lowerItem, hsig]
      exact Noted.Yields.bind (Q := fun _ => True) (fun _ => trivial)
        fun _ _ => .pure fun c hc => by cases hc
    | none =>
      simp only [lowerItem, hsig]
      exact .pure fun c hc => by cases hc
  | const c =>
    by_cases hattempt : c.value.containsAttempt = true
    · simp only [lowerItem, hattempt, if_true]
      exact Noted.yields_report_bind _
    · simp only [lowerItem, hattempt]
      exact .pure fun _ h => h
  | _ => exact .pure fun c hc => by cases hc

/-- Task dispatch leaves constants as they are. -/
theorem Dispatch.lowerItem_const :
    (lowerItem table settings item).Yields fun item' =>
      ∀ c, item' = .const c → item = .const c := by
  cases item with
  | func f =>
    by_cases hbinding : f.body.hasBinding = true
    · simp only [lowerItem, hbinding, if_true]
      exact Noted.Yields.bind (Q := fun _ => True) (fun _ => trivial)
        fun _ _ => .pure fun c hc => by cases hc
    · simp only [lowerItem, hbinding]
      exact .pure fun c hc => by cases hc
  | const c => exact .pure fun _ h => h
  | _ => exact .pure fun c hc => by cases hc

/-- Of a constant, the templates in its value are expanded. -/
theorem Item.expandTemplates_const (function : String) :
    (item.expandTemplates function).Yields fun item' => ∀ c, item' = .const c →
      ∃ decl, item = .const decl ∧
        (decl.value.rebuild true (Expr.expandTemplate function)).outcome = .ok c.value := by
  cases item with
  | func decl =>
    exact Noted.Yields.bind (Q := fun _ => True) (fun _ => trivial)
      fun _ _ => .pure fun c hc => by cases hc
  | const decl =>
    have hvalue : (decl.value.rebuild true (Expr.expandTemplate function)).Yields fun value =>
        (decl.value.rebuild true (Expr.expandTemplate function)).outcome = .ok value :=
      fun hfaults => Noted.outcome_eq_ok.mpr ⟨hfaults, rfl⟩
    refine hvalue.bind fun value hvalue => .pure ?_
    rintro _ ⟨⟩
    exact ⟨decl, rfl, hvalue⟩
  | _ => exact .pure fun c hc => by cases hc

end Constants

/-- In a constant only types and templates are lowered. -/
theorem exists_const_of_lower {settings : Settings} {program lowered : Program}
    (h : (lower settings program).outcome = .ok lowered) {c : Constant}
    (hc : .const c ∈ lowered.items) :
    ∃ source, .const source ∈ program.items ∧
      ((source.value.mapTypes (Ty.lowered settings.optionPolicy)).rebuild true
        (Expr.expandTemplate settings.formatFunction)).outcome = .ok c.value := by
  obtain ⟨typed, table, propagated, dispatched, expanded, htyped, hpropagated, hdispatched,
    hexpanded, hlowered⟩ := passes_of_lower h
  obtain ⟨hmapped, -⟩ := (lowerTypes_yields settings program).of_outcome htyped
  have hpropagates : (propagateErrors table settings typed).Yields fun program' =>
      ∀ item ∈ program'.items, ∀ c, item = .const c → .const c ∈ typed.items := by
    refine (Noted.yields_mapM fun item hitem => ?_).bind fun _ hitems => .pure hitems
    refine (Propagation.lowerItem_const table settings item).mono fun _ hconst c hc => ?_
    exact hconst c hc ▸ hitem
  have hkept := hpropagates.of_outcome hpropagated
  have hdispatches : (dispatchTasks table settings propagated).Yields fun program' =>
      ∀ item ∈ program'.items, ∀ c, item = .const c → .const c ∈ typed.items := by
    refine dispatchTasks_yields_of_lowerItem (fun item hitem => ?_) fun _ => nofun
    refine (Dispatch.lowerItem_const table settings item).mono fun _ hconst c hc => ?_
    exact hkept item hitem c (hconst c hc)
  have hunchanged := hdispatches.of_outcome hdispatched
  have hexpands : (expandTemplates settings dispatched).Yields fun program' =>
      ∀ item ∈ program'.items, ∀ c, item = .const c → ∃ decl, .const decl ∈ typed.items ∧
        (decl.value.rebuild true (Expr.expandTemplate settings.formatFunction)).outcome =
          .ok c.value := by
    refine (Noted.yields_mapM fun item hitem => ?_).bind fun _ hitems => .pure hitems
    refine (item.expandTemplates_const settings.formatFunction).mono fun _ hconst c hc => ?_
    obtain ⟨decl, hdecl, hvalue⟩ := hconst c hc
    exact ⟨decl, hunchanged item hitem decl hdecl, hvalue⟩
  rw [hlowered] at hc
  obtain ⟨decl, hdecl, hvalue⟩ := hexpands.of_outcome hexpanded _ hc c rfl
  obtain ⟨source, hsource, hmap⟩ := List.mem_map.mp (hmapped ▸ hdecl)
  cases source with
  | const source =>
    cases hmap
    exact ⟨source, hsource, hvalue⟩
  | _ => cases hmap

/-- In a unit whose methods belong to named types and whose constants have no function literals,
everything that is lowered without a fault is in the base language. -/
theorem lower_isLowered {settings : Settings} {program lowered : Program}
    (hreceivers : ∀ f, .func f ∈ program.items → ∀ r ∈ f.receiver, r.ty.isReceiver = true)
    (hconstants : ∀ c, .const c ∈ program.items → ∀ node ∈ c.value.nodes, node.isFunc = false)
    (h : (lower settings program).outcome = .ok lowered) :
    ∀ item ∈ lowered.items, item.isLowered = true := by
  intro item hitem
  obtain ⟨hnodes, hclause⟩ := lower_carries Propagation.carries_anything hreceivers hconstants
    (fun _ _ _ _ => rfl) h item hitem
  exact Item.isLowered_of_isExpanded hnodes hclause

/-- `limit string = "at most \(3)"`. -/
def limitConstant : Constant where
  name := "limit"
  ty := some (.named "string")
  value := .template [.text "at most ", .embed (.int 3) none .nowhere] .nowhere

/-- `load(id) Result<int>`, which always fails. -/
def loadFunction : Function where
  name := "load"
  receiver := none
  params := [{ name := "id", ty := .named "int" }]
  returns := some (.result (.named "int"))
  body := .inserted [
    .throw (.template [.text "no ", .embed (.name "id") (some "d") .nowhere] .nowhere) .nowhere]

/-- `(c *!Conn) size() Result<int>`, with a go-binding and a function literal. -/
def sizeMethod : Function where
  name := "size"
  receiver := some { name := "c", ty := .pointer (.named "Conn") false }
  params := []
  returns := some (.result (.named "int"))
  body := .inserted [
    .bind [{ name := "a" }, { name := "_" }] (.apply (.name "load") [.int 1]) .nowhere,
    .assign [.name "f"] .define [.func [{ name := "x", ty := .option (.named "int") }]
      (some (.result (.named "int"))) (.inserted
        [.ret [.attempt (.apply (.name "load") [.int 2]) .nowhere] .nowhere]) .nowhere] .nowhere,
    .ret [.attempt (.apply (.name "load") [.unary .receive (.name "a") .nowhere]) .nowhere]
      .nowhere]

/-- A unit with every kind of item. -/
def network : Program where
  name := "network"
  package := "main"
  imports := []
  items := [
    .struct { name := "Conn", fields := [{ name := "next", ty := .option (.named "Conn") }] },
    .enum { name := "Mode", variants := [{ name := "Idle", fields := [] }] },
    .const limitConstant, .func loadFunction, .func sizeMethod]

/-- The unit `network` is lowered to the base language. -/
theorem lower_isLowered_network :
    (∀ f, .func f ∈ network.items → ∀ r ∈ f.receiver, r.ty.isReceiver = true) ∧
      (∀ c, .const c ∈ network.items → ∀ node ∈ c.value.nodes, node.isFunc = false) ∧
      ∃ lowered, (lower {} network).outcome = .ok lowered ∧ lowered.items.length = 6 ∧
        ∀ item ∈ lowered.items, item.isLowered = true := by
  have hreceivers : ∀ f, .func f ∈ network.items → ∀ r ∈ f.receiver, r.ty.isReceiver = true := by
    intro f hf
    simp only [network, List.mem_cons, reduceCtorEq, Item.func.injEq, List.not_mem_nil, or_false,
      false_or] at hf
    rcases hf with rfl | rfl
    · nofun
    · rintro _ ⟨⟩
      rfl
  have hconstants : ∀ c, .const c ∈ network.items → ∀ node ∈ c.value.nodes,
      node.isFunc = false := by
    intro c hc
    simp only [network, List.mem_cons, reduceCtorEq, Item.const.injEq, List.not_mem_nil, or_false,
      false_or] at hc
    subst hc
    decide
  have hcount : (lower {} network).outcome.toOption.map (·.items.length) = some 6 := by
    decide +kernel
  cases hlower : (lower {} network).outcome with
  | error faults => simp [hlower, Except.toOption] at hcount
  | ok lowered =>
    rw [hlower] at hcount
    exact ⟨hreceivers, hconstants, lowered, rfl, Option.some.inj hcount,
      lower_isLowered hreceivers hconstants hlower⟩

end Desugar
