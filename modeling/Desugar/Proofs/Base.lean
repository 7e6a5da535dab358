import Desugar.Proofs.Stable
import Desugar.Proofs.Tree.Bindings

/-!
# Units of the base language

A unit of the base language has no construct of the extended one, at any depth: no `try`, `throw`,
template or go-binding, only plain types in value position, and return clauses with as many values
as they say. On such a unit lowering has nothing to do. The one thing that the unit as a whole has
to grant is that functions with one key return the same, since they share a signature.

- `Program.IsBase`: the property.
- `lower_base`: lowering gives a unit of the base language as it is.
-/

namespace Desugar

/-- The unit is one of the base language. -/
structure Program.IsBase (program : Program) : Prop where
  /-- There is no `try`, `throw` or template, no alternative of an enum carries values, types in
  value position are plain, and return clauses are absent, plain or tuples of at least two plain
  types. -/
  items : ∀ item ∈ program.items, item.isLowered = true
  /-- There is no go-binding, not even in a loop header. -/
  unbound : ∀ item ∈ program.items, ∀ node ∈ item.nodes, node.isBind = false
  /-- Functions with one key return the same. -/
  clauses : ∀ f g, .func f ∈ program.items → .func g ∈ program.items → f.key = g.key →
    f.returns = g.returns

namespace Item

variable {item : Item}

/-- A lowered node is also expanded, whatever else its item allows. -/
theorem isExpanded_allows {node : Node} (h : node.isLowered = true) :
    node.isExpanded item.allows = true := by
  rw [Node.isLowered_eq, Bool.and_eq_true] at h
  refine Bool.and_eq_true_iff.mpr ⟨?_, h.2⟩
  cases item with
  | const decl => exact Node.isTyped_of_isPropagated h.1
  | _ => exact h.1

/-- An item without a go-binding among its nodes has none to dispatch. -/
theorem hasBinding_eq_false (h : ∀ node ∈ item.nodes, node.isBind = false) :
    item.hasBinding = false := by
  cases item with
  | func decl =>
    have hbody : NoBind decl.body.nodes := fun node hnode => by simpa using h node hnode
    exact Block.hasBindingIn_eq_false false decl.body hbody
  | _ => rfl

/-- A lowered item is no constant with a `try`. -/
theorem hasAttempt_eq_false (h : item.isWithin Node.isLowered = true) :
    item.hasAttempt = false := by
  cases item with
  | const decl =>
    obtain ⟨-, hvalue⟩ := isWithin_const.mp h
    exact Expr.containsAttempt_eq_false (hvalue.mono fun _ => Node.isPropagated_of_isLowered)
  | _ => rfl

/-- A lowered item without go-bindings is one that no pass has anything to do for. -/
theorem isStable_of_isLowered (h : item.isLowered = true)
    (hunbound : ∀ node ∈ item.nodes, node.isBind = false) : item.IsStable := by
  obtain ⟨hnodes, hclause⟩ := Bool.and_eq_true_iff.mp h
  exact ⟨isWithin_mono (fun _ => isExpanded_allows) hnodes, hclause, hasBinding_eq_false hunbound,
    hasAttempt_eq_false hnodes⟩

end Item

/-- A unit of the base language is stable, item by item. -/
theorem Program.IsBase.isStable {program : Program} (h : program.IsBase) : program.IsStable where
  items item hitem := Item.isStable_of_isLowered (h.items item hitem) (h.unbound item hitem)
  clauses := h.clauses

/-- A unit of the base language passes through lowering unchanged, whatever the settings: the same
imports in the same order, and the same items with the same spans. -/
theorem lower_base (settings : Settings) {program : Program} (h : program.IsBase) :
    (lower settings program).outcome = .ok program :=
  (lower_of_isStable settings h.isStable).outcome

/-! ### A unit of the base language -/

/-- `func init()`, of which a unit may have several. It calls a function literal with two results in
the header of a loop. -/
def initFunction (limit : Int) : Function where
  name := "init"
  receiver := none
  params := []
  returns := none
  body := .inserted [
    .loop (.three
        (some (.assign [.name "i", .name "err"] .define
          [.apply (.func [] (some (.tuple [.named "int", .error]))
            (.inserted [.ret [.int 0, .nil] .nowhere]) .nowhere) []] .nowhere))
        (some (.binary .lt (.name "i") (.int limit) .nowhere))
        (some (.assign [.name "i"] (.update .add) [.int 1] .nowhere)))
      (.inserted [.expr (.apply (.name "use") [.name "err"])]) .nowhere]

/-- A method of a slice type, which receives from a channel. -/
def drainMethod : Function where
  name := "drain"
  receiver := some { name := "q", ty := .array (.channel (.named "int") .receive) }
  params := [{ name := "at", ty := .named "int" }]
  returns := some (.pointer (.named "int") true)
  body := .inserted [
    .var [{ name := "x" }] (some (.named "int"))
      [.unary .receive (.index (.name "q") (.name "at") .nowhere) .nowhere] .nowhere,
    .ret [.unary .addressOf (.name "x") .nowhere] .nowhere]

/-- A unit of the base language with every kind of item. Its imports are not in order. -/
def plainUnit : Program where
  name := "plain"
  package := "main"
  imports := [{ path := "sync" }, { path := "fmt", localName := some "f" }]
  items := [
    .struct
      { name := "Queue", fields := [{ name := "next", ty := .pointer (.named "Queue") true }] },
    .enum { name := "Mode", variants := [{ name := "Idle", fields := [] }] },
    .const { name := "step", ty := none, value := .func [] none (.inserted []) .nowhere },
    .func (initFunction 3), .func drainMethod, .func (initFunction 5), .support "gx"]

/-- The unit `plainUnit` is one of the base language, and is left as it is. -/
theorem lower_base_plainUnit : plainUnit.IsBase ∧ (lower {} plainUnit).outcome = .ok plainUnit := by
  have hbase : plainUnit.IsBase := by
    -- The two functions `init` share a key and return nothing.
    have hreturns : ∀ f, .func f ∈ plainUnit.items →
        f.returns = if f.key = "init" then none else drainMethod.returns := by
      intro f hf
      simp only [plainUnit, List.mem_cons, reduceCtorEq, Item.func.injEq, List.not_mem_nil,
        or_false, false_or] at hf
      rcases hf with rfl | rfl | rfl <;> rfl
    refine ⟨by decide, by decide, fun f g hf hg hkey => ?_⟩
    rw [hreturns f hf, hreturns g hg, hkey]
  exact ⟨hbase, lower_base {} hbase⟩

end Desugar
