import Desugar.Proofs.Emit.Accepted
import Desugar.Proofs.Idempotent
import Desugar.Proofs.Tree.Bindings

/-!
# What is lowered can be written out

Lowering takes care of everything that has no notation in the base language, except for numbers
that are not finite and for loop headers that do not fit on a line. Neither is made on the way: no
pass inserts a number or a loop, and the statements of a header stay what they are or, as a `throw`,
become a return. A `try` that a header begins with is the exception. It becomes the capture of the
call and the check of its error, and the check is left behind as the first statement of the loop.

- `Node.isReady`: the condition on the unit as it was written.
- `emit_lower`: a unit that meets it has a text once it is lowered.
- `emit_lower_polling`: a unit whose loop begins with a `try` has none.
-/

namespace Desugar

/-! ### Conditions on nodes -/

namespace Node

/-- Numbers are finite and the statements of loop headers are simple. -/
def isSimple : Node → Bool
  | .expr (.lit value _) => value.isFinite
  | .stmt (.loop clause _ _) => clause.isSimple
  | _ => true

/-- Besides, no loop header begins with a `try`. -/
def isReady : Node → Bool
  | .expr (.lit value _) => value.isFinite
  | .stmt (.loop clause _ _) => clause.isReady
  | _ => true

/-- Numbers are finite and loop headers fit on a line. -/
def isTidy : Node → Bool
  | .expr (.lit value _) => value.isFinite
  | .stmt (.loop clause _ _) => clause.isInline
  | _ => true

end Node

/-- Whether a header fits on a line is seen from the kinds of its statements. -/
theorem Clause.isInline_form (clause : Clause) : clause.form.isInline = clause.isInline := by
  have hform (stmt : Option Stmt) :
      (stmt.map Stmt.form).all Stmt.isInline = stmt.all Stmt.isInline := by
    cases stmt with
    | none => rfl
    | some stmt => cases stmt <;> rfl
  cases clause with
  | three first condition post => rw [form, isInline, isInline, hform, hform]
  | _ => rfl

/-- Whether a node is tidy can be told without its parts, and inserted nodes are. -/
theorem Node.isLocal_isTidy : IsLocal isTidy where
  shell
    | .expr e => by cases e <;> rfl
    | .stmt s => by
      cases s with
      | loop clause body span => exact clause.isInline_form.symm
      | _ => rfl
  inserted
    | .expr e, h => by
      cases e with
      | lit value span =>
        cases value with
        | float value => cases h
        | _ => rfl
      | _ => rfl
    | .stmt s, h => by
      cases s with
      | loop clause body span => cases h
      | _ => rfl

/-- Error propagation makes tidy nodes of those that are ready. -/
theorem Propagation.carries_isReady : Carries Node.isReady Node.isTidy where
  toIsLocal := Node.isLocal_isTidy
  kept {node} hkept h := by
    match node with
    | .expr e => cases e <;> exact h
    | .stmt s =>
      cases s with
      | loop clause body span => cases hkept
      | _ => rfl
  func _ _ := rfl
  loop h hclause := hclause h

/-- Whether a loop header is ready does not depend on types. -/
theorem Clause.isReady_mapTypes (f : Ty → Ty) (clause : Clause) :
    (clause.mapTypes f).isReady = clause.isReady := by
  have hsimple (stmt : Option Stmt) :
      (Stmt.mapTypesOption f stmt).all Stmt.isSimple = stmt.all Stmt.isSimple := by
    cases stmt with
    | none => rfl
    | some stmt => cases stmt <;> rfl
  have hattempt (stmt : Option Stmt) :
      (Stmt.mapTypesOption f stmt).any Stmt.isAttempt = stmt.any Stmt.isAttempt := by
    cases stmt with
    | none => rfl
    | some stmt =>
      cases stmt with
      | expr value => cases value <;> rfl
      | _ => rfl
  cases clause with
  | three first condition post =>
    rw [mapTypes, isReady, isReady, isSimple, isSimple, isAttempt, isAttempt, hsimple, hsimple,
      hattempt]
  | _ => rfl

/-- Whether a node is ready does not depend on types. -/
theorem Node.isReady_mapTypes (f : Ty → Ty) (node : Node) :
    (node.mapTypes f).isReady = node.isReady := by
  match node with
  | .expr e => cases e <;> rfl
  | .stmt s =>
    cases s with
    | loop clause body span => exact clause.isReady_mapTypes f
    | _ => rfl

/-! ### Items -/

/-- Every return clause of the base language can be written. -/
theorem Ty.isWritable_of_isClause {returns : Option Ty} (h : isClause returns = true) :
    isWritable returns = true := by
  cases returns with
  | none => rfl
  | some t =>
    cases t with
    | tuple slots => exact (Bool.and_eq_true_iff.mp h).2
    | _ => exact h

/-- The conditions together are those of writing. -/
theorem Node.isWritable_of_isTidy {node : Node} (hlowered : node.isLowered = true)
    (htidy : node.isTidy = true) (hbind : node.isBind = false) : node.isWritable = true := by
  match node with
  | .expr e =>
    cases e with
    | attempt operand span => cases hlowered
    | template segments span => cases hlowered
    | lit value span => exact htidy
    | composite ty elements span => exact hlowered
    | ofType ty span => exact hlowered
    | func params returns body span =>
      obtain ⟨hparams, hclause⟩ := Bool.and_eq_true_iff.mp hlowered
      exact Bool.and_eq_true_iff.mpr ⟨hparams, Ty.isWritable_of_isClause hclause⟩
    | _ => rfl
  | .stmt s =>
    cases s with
    | throw value span => cases hlowered
    | bind names call span => cases hbind
    | var names ty values span => exact hlowered
    | loop clause body span => exact htidy
    | _ => rfl

/-- A lowered item that is tidy and has no go-binding is writable. -/
theorem Item.isWritable_of_isTidy {item : Item} (hlowered : item.isLowered = true)
    (htidy : Within Node.isTidy item.nodes) (hbind : NoBind item.nodes) :
    item.isWritable = true := by
  obtain ⟨hwithin, hclause⟩ := Bool.and_eq_true_iff.mp hlowered
  obtain ⟨hdecl, hnodes⟩ := isWithin_iff.mp hwithin
  have hwritable : Within Node.isWritable item.nodes := by
    intro node hnode
    have hunbound : node.isBind = false := by simpa using hbind node hnode
    exact Node.isWritable_of_isTidy (hnodes node hnode) (htidy node hnode) hunbound
  exact Bool.and_eq_true_iff.mpr
    ⟨isWithin_iff.mpr ⟨hdecl, hwritable⟩, Ty.isWritable_of_isClause hclause⟩

/-! ### Units -/

/-- What a unit has to be like, besides what its nodes have to be like, to be written out once it
is lowered. -/
structure Program.Admits (good : Node → Bool) (program : Program) : Prop where
  /-- Methods belong to named types, under any number of pointers. -/
  receivers : ∀ f, .func f ∈ program.items → ∀ r ∈ f.receiver, r.ty.isReceiver = true
  /-- Constants have no function literals. -/
  constants : ∀ c, .const c ∈ program.items → ∀ node ∈ c.value.nodes, node.isFunc = false
  /-- All nodes of the code are good. -/
  nodes : ∀ item ∈ program.items, ∀ node ∈ item.nodes, good node = true

/-- The condition on a single item. -/
def Item.admits (good : Node → Bool) : Item → Bool
  | func decl => decl.receiver.all (fun r => r.ty.isReceiver) && decl.body.nodes.all good
  | const decl => decl.value.nodes.all fun node => !node.isFunc && good node
  | struct _ | enum _ | support _ => true

/-- A unit is admitted if each of its items is. -/
theorem Program.admits_iff {good : Node → Bool} {program : Program} :
    program.Admits good ↔ program.items.all (Item.admits good) = true := by
  rw [List.all_eq_true]
  constructor
  · intro h item hitem
    cases item with
    | func decl =>
      have hreceiver : decl.receiver.all (fun r => r.ty.isReceiver) = true :=
        (Option.all_eq_true _ _).mpr (h.receivers decl hitem)
      exact Bool.and_eq_true_iff.mpr ⟨hreceiver, List.all_eq_true.mpr (h.nodes _ hitem)⟩
    | const decl =>
      refine List.all_eq_true.mpr fun node hnode => ?_
      rw [h.constants decl hitem node hnode, h.nodes _ hitem node hnode]
      rfl
    | _ => rfl
  · intro h
    refine ⟨fun f hf r hr => ?_, fun c hc node hnode => ?_, fun item hitem => ?_⟩
    · exact (Option.all_eq_true _ _).mp (Bool.and_eq_true_iff.mp (h _ hf)).1 r hr
    · simpa using (Bool.and_eq_true_iff.mp (List.all_eq_true.mp (h _ hc) node hnode)).1
    · cases item with
      | func decl => exact List.all_eq_true.mp (Bool.and_eq_true_iff.mp (h _ hitem)).2
      | const decl =>
        intro node hnode
        exact (Bool.and_eq_true_iff.mp (List.all_eq_true.mp (h _ hitem) node hnode)).2
      | _ => exact fun _ hnode => nomatch hnode

instance (good : Node → Bool) (program : Program) : Decidable (program.Admits good) :=
  decidable_of_iff _ Program.admits_iff.symm

section Units

variable {settings : Settings} {program lowered : Program}

/-- If a unit is ready, then what it is lowered to is tidy. -/
theorem lower_isTidy (hprogram : program.Admits Node.isReady)
    (h : (lower settings program).outcome = .ok lowered) :
    ∀ item ∈ lowered.items, item.isLowered = true ∧ Within Node.isTidy item.nodes := by
  intro item hitem
  have hsource : ∀ item ∈ program.items, ∀ node ∈ item.nodes,
      (node.mapTypes (Ty.lowered settings.optionPolicy)).isReady = true := by
    intro item hitem node hnode
    rw [Node.isReady_mapTypes]
    exact hprogram.nodes item hitem node hnode
  obtain ⟨hwithin, hclause⟩ := lower_carries Propagation.carries_isReady hprogram.receivers
    hprogram.constants hsource h item hitem
  obtain ⟨hdecl, hnodes⟩ := Item.isWithin_iff.mp hwithin
  refine ⟨Item.isLowered_of_isExpanded hwithin hclause, hnodes.mono fun node hnode => ?_⟩
  exact (Bool.and_eq_true_iff.mp (Bool.and_eq_true_iff.mp hnode).1).2

/-- Without function literals there are no statements. -/
theorem Expr.noBind_of_notFunc {e : Expr} (h : Within (fun node => !node.isFunc) e.nodes) :
    NoBind e.nodes := by
  intro node hnode
  rw [Expr.nodes_eq_visit e h] at hnode
  obtain ⟨x, -, rfl⟩ := List.mem_map.mp hnode
  rfl

/-- Go-bindings are dispatched in functions only, and constants had none to begin with. -/
theorem noBind_const_of_lower
    (hconstants : ∀ c, .const c ∈ program.items → ∀ node ∈ c.value.nodes, node.isFunc = false)
    (h : (lower settings program).outcome = .ok lowered) {c : Constant}
    (hc : .const c ∈ lowered.items) : NoBind c.value.nodes := by
  obtain ⟨source, hsource, hvalue⟩ := exists_const_of_lower h hc
  have hfunc : Within (fun node => !node.isFunc) source.value.nodes := fun node hnode => by
    simpa using hconstants source hsource node hnode
  have hbind := Expr.noBind_of_notFunc
    (Expr.within_notFunc_mapTypes (Ty.lowered settings.optionPolicy) source.value hfunc)
  refine ((Expr.rebuild_expands Node.isLocal_notBind _ hbind).of_outcome hvalue).mono ?_
  exact fun node hnode => (Bool.and_eq_true_iff.mp hnode).1

/-- If a unit is ready, then no go-binding is left in what it is lowered to. -/
theorem noBind_of_lower (hprogram : program.Admits Node.isReady)
    (h : (lower settings program).outcome = .ok lowered) {item : Item}
    (hitem : item ∈ lowered.items) : NoBind item.nodes := by
  cases item with
  | func decl =>
    have hstable := (lower_isStable hprogram.receivers h).items _ hitem
    have hinline : InlineHeaders decl.body.nodes := by
      refine (lower_isTidy hprogram h _ hitem).2.mono fun node hnode => ?_
      match node with
      | .expr _ => rfl
      | .stmt s =>
        cases s with
        | loop clause body span => exact hnode
        | _ => rfl
    exact Block.noBind_nodes decl.body hinline hstable.binding
  | const decl => exact noBind_const_of_lower hprogram.constants h hitem
  | struct decl => exact within_nil
  | enum decl => exact within_nil
  | support stem => exact within_nil

/-- A unit that is lowered without a fault has a text, if its numbers are finite, the statements of
its loop headers are simple, and none of them begins with a `try`. -/
theorem emit_lower (hprogram : program.Admits Node.isReady)
    (h : (lower settings program).outcome = .ok lowered) : ∃ text, emit lowered = .ok text := by
  rw [← Emit.isOk_iff, Emit.isOk_emit, List.all_eq_true]
  intro item hitem
  obtain ⟨hlowered, htidy⟩ := lower_isTidy hprogram h item hitem
  exact Item.isWritable_of_isTidy hlowered htidy (noBind_of_lower hprogram h hitem)

end Units

/-! ### Loops that begin with a call that may fail -/

/-- `scan() Result<float64>`, with a loop that begins with the definition of a variable by a `try`,
and in it one that begins with a `throw`. -/
def scanFunction : Function where
  name := "scan"
  receiver := none
  params := []
  returns := some (.result (.named "float64"))
  body := .inserted [
    .loop (.three
        (some (.assign [.name "n"] .define
          [.attempt (.apply (.name "load") [.int 1]) .nowhere] .nowhere))
        (some (.binary .lt (.name "n") (.int 9) .nowhere))
        (some (.assign [.name "n"] (.update .add) [.int 1] .nowhere)))
      (.inserted [
        .bind [{ name := "a" }, { name := "_" }] (.apply (.name "load") [.name "n"]) .nowhere,
        .loop (.three (some (.throw (.string "stop") .nowhere)) none none) (.inserted []) .nowhere])
      .nowhere,
    .ret [.lit (.float ⟨0x3FF8000000000000⟩) .nowhere] .nowhere]

/-- A unit that can be written out once it is lowered. -/
def scanner : Program where
  name := "scanner"
  package := "main"
  imports := []
  items := [.const limitConstant, .func loadFunction, .func scanFunction]

/-- The unit `scanner` is lowered and written out. -/
theorem emit_lower_scanner :
    scanner.Admits Node.isReady ∧ ∃ lowered, (lower {} scanner).outcome = .ok lowered ∧
      ∃ text, emit lowered = .ok text := by
  have hadmits : scanner.Admits Node.isReady := by decide +kernel
  have hok : (lower {} scanner).outcome.isOk = true := by decide +kernel
  obtain ⟨lowered, hlower⟩ := Emit.isOk_iff.mp hok
  exact ⟨hadmits, lowered, hlower, emit_lower hadmits hlower⟩

/-- `poll() Result<()>`, with a loop that begins with a `try`. -/
def pollFunction : Function where
  name := "poll"
  receiver := none
  params := []
  returns := some (.result (.tuple []))
  body := .inserted [
    .loop (.three (some (.expr (.attempt (.apply (.name "load") [.int 1]) .nowhere))) none none)
      (.inserted [.breakLoop .nowhere]) .nowhere,
    .ret [] .nowhere]

/-- A unit that is lowered without a fault and still has no text. -/
def polling : Program where
  name := "polling"
  package := "main"
  imports := []
  items := [.func loadFunction, .func pollFunction]

/-- The check of the error that follows the captured call stays in the header, where an `if` cannot
stand. -/
theorem emit_lower_polling :
    polling.Admits Node.isSimple ∧ ∃ lowered, (lower {} polling).outcome = .ok lowered ∧
      ∀ text, emit lowered ≠ .ok text := by
  have hadmits : polling.Admits Node.isSimple := by decide +kernel
  have hitems : (lower {} polling).outcome.toOption.map (·.items.all Item.isWritable) =
      some false := by
    decide +kernel
  cases hlower : (lower {} polling).outcome with
  | error faults => simp [hlower, Except.toOption] at hitems
  | ok lowered =>
    rw [hlower] at hitems
    have hemit : (emit lowered).isOk = false :=
      (Emit.isOk_emit lowered).trans (Option.some.inj hitems)
    refine ⟨hadmits, lowered, rfl, fun text htext => ?_⟩
    rw [htext] at hemit
    cases hemit

end Desugar
