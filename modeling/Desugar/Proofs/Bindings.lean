import Desugar.Proofs.Dispatch.Headers
import Desugar.Proofs.Idempotent
import Desugar.Proofs.Propagation.Headers

/-!
# The go-bindings of a lowered unit

A go-binding in a loop header cannot be lowered. It is a fault where the pass over go-bindings comes
across it, but a body without any other go-binding is passed by, and then it is left as it is.

- `lower_bindings`: what is left of the go-bindings of a unit, and which of them make lowering fail.
-/

namespace Desugar

/-! ### Lowering that succeeds -/

/-- Templates expand to calls, so the expansion of an item adds no go-binding. -/
theorem Item.expandTemplates_unbinds {function : String} {item : Item}
    (h : item.hasBinding = false) :
    (item.expandTemplates function).Yields fun item' => item'.hasBinding = false := by
  cases item with
  | func decl =>
    exact (Block.rebuild_kept decl.body).bind fun _ hkept => .pure ((hkept false).trans h)
  | const decl =>
    exact Noted.Yields.bind (Q := fun _ => True) (fun _ => trivial) fun _ _ => .pure rfl
  | _ => exact .pure h

/-- No go-binding is found in a lowered unit. -/
theorem lower_unbinds {settings : Settings} {program lowered : Program}
    (h : (lower settings program).outcome = .ok lowered) :
    ∀ item ∈ lowered.items, item.hasBinding = false := by
  obtain ⟨_, table, propagated, dispatched, expanded, -, -, hdispatched, hexpanded, hitems⟩ :=
    passes_of_lower h
  have hdispatches : (dispatchTasks table settings propagated).Yields fun program' =>
      ∀ item ∈ program'.items, item.hasBinding = false :=
    dispatchTasks_yields_of_lowerItem
      (fun item _ => Dispatch.lowerItem_unbinds table settings item) fun _ => rfl
  have hunbound := hdispatches.of_outcome hdispatched
  have hexpands : (expandTemplates settings dispatched).Yields fun program' =>
      ∀ item ∈ program'.items, item.hasBinding = false := by
    refine (Noted.yields_mapM fun item hitem => ?_).bind fun _ hitems => .pure hitems
    exact Item.expandTemplates_unbinds (hunbound item hitem)
  rw [hitems]
  exact hexpands.of_outcome hexpanded

/-! ### Lowering that fails -/

namespace Run

variable {α β : Type} {x : Run α} {f : α → Run β}

/-- A step that succeeds leaves the outcome to the next one. -/
theorem outcome_bind_ok {a : α} (h : x.outcome = .ok a) : (x >>= f).outcome = (f a).outcome := by
  simp only [bind, h]

/-- A step that fails is the last one that counts. -/
theorem outcome_bind_error {faults : List Fault} (h : x.outcome = .error faults) :
    (x >>= f).outcome = .error faults := by
  simp only [bind, h]

end Run

/-- The faults of the pass over go-bindings are those of the unit, if the passes before it find
none. -/
theorem lower_eq_error {settings : Settings} {program typed propagated : Program}
    {table : SignatureTable} {faults : List Fault}
    (htyped : (lowerTypes settings program).outcome = .ok (typed, table))
    (hpropagated : (propagateErrors table settings typed).outcome = .ok propagated)
    (hdispatched : (dispatchTasks table settings propagated).outcome = .error faults) :
    (lower settings program).outcome = .error faults := by
  have hpasses : (lowerPasses settings program).outcome = .error faults := by
    unfold lowerPasses
    rw [Run.outcome_bind_ok rfl, Run.outcome_bind_ok htyped, Run.outcome_bind_ok rfl,
      Run.outcome_bind_ok hpropagated, Run.outcome_bind_ok rfl, Run.outcome_bind_error hdispatched]
  have himports : (lowerPasses settings program).withImports.outcome = .error faults := by
    rw [Run.withImports, hpasses]
    rfl
  exact Run.outcome_bind_error himports

/-- A body with go-bindings in headers and elsewhere is still there when go-bindings are
dispatched. -/
theorem dispatchTasks_reports_mixes {settings : Settings} {program typed propagated : Program}
    {table : SignatureTable} {f : Function} {body : Block} (hf : .func f ∈ program.items)
    (hbody : body ∈ f.body.bodies) (hmixes : body.mixes = true)
    (htyped : (lowerTypes settings program).outcome = .ok (typed, table))
    (hpropagated : (propagateErrors table settings typed).outcome = .ok propagated) :
    (dispatchTasks table settings propagated).Reports := by
  obtain ⟨hmapped, -⟩ := (lowerTypes_yields settings program).of_outcome htyped
  let lowered : Ty → Ty := Ty.lowered settings.optionPolicy
  have hitem : Item.mapTypes lowered (.func f) ∈ typed.items := by
    rw [hmapped]
    exact List.mem_map_of_mem hf
  obtain ⟨f', hf', hle⟩ := (propagateErrors_covers table settings hitem).of_outcome hpropagated
  have htop : f'.body.found false = ⊤ := by
    have hsource : (f.body.mapTypes lowered).found false = ⊤ :=
      Block.found_of_mixes (Block.mem_bodies_mapTypes lowered hbody)
        (Block.mixes_mapTypes lowered hmixes)
    exact eq_top_iff.mpr (hsource.ge.trans hle)
  have hbinding : f'.body.hasBinding = true := congrArg Prod.fst htop
  have hstray : f'.body.hasStray = true := congrArg Prod.snd htop
  exact dispatchTasks_reports table settings hf' hbinding hstray

/-! ### The unit -/

/-- **What becomes of go-bindings.** If a unit is lowered, no go-binding is left in its functions,
except in loop headers. If a body, of a function or of a function literal at any depth, has one in a
loop header and another that is not, lowering fails, and for that reason unless an earlier pass has
failed before. -/
theorem lower_bindings (settings : Settings) (program : Program) :
    (∀ lowered, (lower settings program).outcome = .ok lowered →
      ∀ f, .func f ∈ lowered.items → ∀ stmt, .stmt stmt ∈ f.body.nodes → stmt.isBind = true →
        stmt.InHeader f.body.nodes) ∧
    (∀ f, .func f ∈ program.items → ∀ body ∈ f.body.bodies, body.mixes = true →
      ∃ faults, (lower settings program).outcome = .error faults ∧
        ∀ typed table propagated, (lowerTypes settings program).outcome = .ok (typed, table) →
          (propagateErrors table settings typed).outcome = .ok propagated →
            ∃ fault ∈ faults, fault.cause = .bindingInHeader) := by
  constructor
  · intro lowered h f hf stmt hstmt hbind
    have hnone : f.body.hasBinding = false := lower_unbinds h (.func f) hf
    exact Block.inHeader_of_hasBinding_eq_false hnone hstmt hbind
  · intro f hf body hbody hmixes
    cases hlower : (lower settings program).outcome with
    | ok lowered =>
      obtain ⟨typed, table, propagated, dispatched, _, htyped, hpropagated, hdispatched, -⟩ :=
        passes_of_lower hlower
      obtain ⟨faults, herror, -⟩ :=
        (dispatchTasks_reports_mixes hf hbody hmixes htyped hpropagated).outcome
      rw [herror] at hdispatched
      cases hdispatched
    | error faults =>
      refine ⟨faults, rfl, fun typed table propagated htyped hpropagated => ?_⟩
      obtain ⟨faults', herror, hfault⟩ :=
        (dispatchTasks_reports_mixes hf hbody hmixes htyped hpropagated).outcome
      rw [lower_eq_error htyped hpropagated herror] at hlower
      cases hlower
      exact hfault

/-- `load() int` -/
def loadNumber : Function where
  name := "load"
  receiver := none
  params := []
  returns := some (.named "int")
  body := .inserted [.ret [.int 1] .nowhere]

/-- Some statements, and a loop that begins with `x := go load()`. -/
def bindingLoop (before : List Stmt) : Function where
  name := "main"
  receiver := none
  params := []
  returns := none
  body := .inserted (before ++
    [.loop (.three (some (.bind [{ name := "x" }] (.apply (.name "load") []) .nowhere)) none none)
      (.inserted [.breakLoop .nowhere]) .nowhere])

def bindingUnit (before : List Stmt) : Program where
  name := "binding"
  package := "main"
  imports := []
  items := [.func loadNumber, .func (bindingLoop before)]

/-- `run(func() { y := go load() })` -/
def bindingLiteral : Stmt :=
  .expr (.apply (.name "run") [.func [] none
    (.inserted [.bind [{ name := "y" }] (.apply (.name "load") []) .nowhere]) .nowhere])

/-- A go-binding in a loop header is reported if there is another one in a function literal. -/
theorem lower_bindings_mixed :
    (bindingLoop [bindingLiteral]).body.mixes = true ∧
      ∃ faults, (lower {} (bindingUnit [bindingLiteral])).outcome = .error faults ∧
        ∃ fault ∈ faults, fault.cause = .bindingInHeader := by
  have hmixes : (bindingLoop [bindingLiteral]).body.mixes = true := by decide
  have hmain : .func (bindingLoop [bindingLiteral]) ∈ (bindingUnit [bindingLiteral]).items :=
    List.mem_cons_of_mem _ List.mem_cons_self
  obtain ⟨faults, hlower, hfault⟩ := (lower_bindings {} (bindingUnit [bindingLiteral])).2
    (bindingLoop [bindingLiteral]) hmain _ List.mem_cons_self hmixes
  refine ⟨hmixes, faults, hlower, ?_⟩
  -- The passes before find no fault.
  have htyped : (lowerTypes {} (bindingUnit [bindingLiteral])).notes.faults = [] := rfl
  have hpropagated : (propagateErrors (lowerTypes {} (bindingUnit [bindingLiteral])).value.2 {}
      (lowerTypes {} (bindingUnit [bindingLiteral])).value.1).notes.faults = [] := rfl
  exact hfault _ _ _ (Noted.outcome_eq_ok.mpr ⟨htyped, rfl⟩)
    (Noted.outcome_eq_ok.mpr ⟨hpropagated, rfl⟩)

/-- With nothing before the loop, the unit passes through lowering with its go-binding. -/
theorem lower_bindings_stray :
    (lower {} (bindingUnit [])).outcome = .ok (bindingUnit []) ∧
      .func (bindingLoop []) ∈ (bindingUnit []).items ∧
      ∃ stmt, .stmt stmt ∈ (bindingLoop []).body.nodes ∧ stmt.isBind = true := by
  refine ⟨rfl, List.mem_cons_of_mem _ List.mem_cons_self, ?_⟩
  exact ⟨_, List.mem_cons_of_mem _ List.mem_cons_self, rfl⟩

end Desugar
