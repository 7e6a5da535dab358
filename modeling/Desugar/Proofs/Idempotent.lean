import Desugar.Compile
import Desugar.Proofs.Lowering
import Desugar.Proofs.Stable
import Desugar.Proofs.Template.Kept

/-!
# Lowering twice

A unit that comes out of the passes is stable, and a stable unit is lowered to itself. From error
propagation on, every function returns what the signature under its key says (`Item.Agrees`), and
the later passes change neither keys nor return clauses. So functions with one key agree in the
lowered unit, although they need not in the unit as it was written.

- `lower_isStable`: what is lowered without a fault is stable.
- `lower_idempotent`: lowering it again changes nothing, and neither does it change the text.
-/

namespace Desugar

/-- The item has no errors left to propagate. -/
structure Item.IsSettled (table : SignatureTable) (item : Item) : Prop where
  nodes : item.isWithin item.allows = true
  clause : Ty.isClause item.returns? = true
  attempt : item.hasAttempt = false
  agrees : item.Agrees table

variable {table : SignatureTable} {settings : Settings} {item : Item}

/-! ### What each pass makes of an item -/

/-- Error propagation gives a function the return clause of its signature. -/
theorem Propagation.lowerItem_isSettled (htable : table.IsPlain)
    (hitem : item.isWithin Node.isTyped = true)
    (hknown : ∀ f, item = .func f → (table.get? f.key).isSome) :
    (lowerItem table settings item).Yields (Item.IsSettled table) := by
  cases item with
  | func f =>
    obtain ⟨hparams, hbody⟩ := Item.isWithin_func.mp hitem
    obtain ⟨sig, hsig⟩ := Option.isSome_iff_exists.mp (hknown f rfl)
    simp only [lowerItem, hsig]
    refine (lowerFunction_yields carries_isTyped hbody).bind fun f' hf' => ?_
    obtain ⟨body, rfl, hbody⟩ := hf'
    have hclause : Ty.isClause sig.clause = true :=
      ReturnShape.isClause_clause (htable f.key sig hsig)
    exact .pure ⟨Item.isWithin_func.mpr ⟨hparams, hbody⟩, hclause, rfl, sig, hsig, rfl⟩
  | const c =>
    by_cases hattempt : c.value.containsAttempt = true
    · simp only [lowerItem, hattempt, if_true]
      exact Noted.yields_report_bind _
    · simp only [lowerItem, hattempt]
      exact .pure ⟨hitem, rfl, Bool.eq_false_iff.mpr hattempt, trivial⟩
  | struct decl => exact .pure ⟨hitem, rfl, rfl, trivial⟩
  | enum decl => exact .pure ⟨hitem, rfl, rfl, trivial⟩
  | support stem => exact .pure ⟨rfl, rfl, rfl, trivial⟩

/-- Task dispatch leaves no error to propagate where there was none. -/
theorem Dispatch.lowerItem_isSettled (htable : table.IsPlain) (h : item.IsSettled table) :
    (lowerItem table settings item).Yields (Item.IsSettled table) := by
  cases item with
  | func f =>
    obtain ⟨hparams, hbody⟩ := Item.isWithin_func.mp h.nodes
    by_cases hbinding : f.body.hasBinding = true
    · simp only [lowerItem, hbinding, if_true]
      refine (lowerFunction_yields Node.isLocal_isPropagated htable hbody).bind fun f' hf' => ?_
      obtain ⟨body, rfl, hbody⟩ := hf'
      exact .pure ⟨Item.isWithin_func.mpr ⟨hparams, hbody⟩, h.clause, rfl, h.agrees⟩
    · simp only [lowerItem, hbinding]
      exact .pure h
  | struct decl => exact .pure h
  | enum decl => exact .pure h
  | const decl => exact .pure h
  | support stem => exact .pure h

/-- A settled item without go-bindings is stable once its templates are expanded. -/
theorem Item.expandTemplates_isStable {function : String} (h : item.IsSettled table)
    (hbinding : item.hasBinding = false) :
    (item.expandTemplates function).Yields fun item' => item'.IsStable ∧ item'.Agrees table := by
  cases item with
  | func decl =>
    obtain ⟨hparams, hbody⟩ := isWithin_func.mp h.nodes
    refine ((Block.rebuild_expands Node.isLocal_isPropagated decl.body hbody).and
      (Block.rebuild_kept decl.body)).bind fun body ⟨hbody, hkept⟩ => .pure ⟨?_, h.agrees⟩
    exact ⟨isWithin_func.mpr ⟨hparams, hbody⟩, h.clause, (hkept false).trans hbinding, rfl⟩
  | const decl =>
    obtain ⟨hty, hvalue⟩ := isWithin_const.mp h.nodes
    refine ((Expr.rebuild_expands Node.isLocal_isTyped decl.value hvalue).and
      (Expr.rebuild_kept decl.value)).bind fun value ⟨hvalue, hkept⟩ => .pure ⟨?_, trivial⟩
    exact ⟨isWithin_const.mpr ⟨hty, hvalue⟩, rfl, rfl, hkept.attempt.trans h.attempt⟩
  | struct decl => exact .pure ⟨⟨h.nodes, rfl, rfl, rfl⟩, trivial⟩
  | enum decl => exact .pure ⟨⟨h.nodes, rfl, rfl, rfl⟩, trivial⟩
  | support stem => exact .pure ⟨⟨rfl, rfl, rfl, rfl⟩, trivial⟩

/-! ### The unit -/

/-- Functions with one key have one signature, and so they return the same. -/
theorem Program.isStable_of_agrees {program : Program}
    (h : ∀ item ∈ program.items, item.IsStable ∧ item.Agrees table) : program.IsStable := by
  refine ⟨fun item hitem => (h item hitem).1, ?_⟩
  intro f g hf hg hkey
  obtain ⟨sig, hsig, hclause⟩ := (h (.func f) hf).2
  obtain ⟨sig', hsig', hclause'⟩ := (h (.func g) hg).2
  rw [hkey, hsig'] at hsig
  cases hsig
  rw [← hclause, ← hclause']

/-- What is lowered without a fault is stable, if methods belong to named types. -/
theorem lower_isStable {program lowered : Program}
    (hreceivers : ∀ f, .func f ∈ program.items → ∀ r ∈ f.receiver, r.ty.isReceiver = true)
    (h : (lower settings program).outcome = .ok lowered) : lowered.IsStable := by
  obtain ⟨typed, table, propagated, dispatched, expanded, htyped, hpropagated, hdispatched,
    hexpanded, hitems⟩ := passes_of_lower h
  obtain ⟨-, htypes, htable, -⟩ := (lowerTypes_yields settings program).of_outcome htyped
  have hknown := (lowerTypes_knows settings hreceivers).of_outcome htyped
  have hpropagates : (propagateErrors table settings typed).Yields fun program' =>
      ∀ item ∈ program'.items, item.IsSettled table := by
    refine (Noted.yields_mapM fun item hitem => ?_).bind fun _ hitems => .pure hitems
    refine Propagation.lowerItem_isSettled htable (htypes item hitem) ?_
    rintro f rfl
    exact hknown f hitem
  have hsettled := hpropagates.of_outcome hpropagated
  have hdispatches : (dispatchTasks table settings propagated).Yields fun program' =>
      ∀ item ∈ program'.items, item.IsSettled table ∧ item.hasBinding = false := by
    refine dispatchTasks_yields_of_lowerItem (fun item hitem => ?_) fun stem => ?_
    · exact (Dispatch.lowerItem_isSettled htable (hsettled item hitem)).and
        (Dispatch.lowerItem_unbinds table settings item)
    · exact ⟨⟨rfl, rfl, rfl, trivial⟩, rfl⟩
  have hunbound := hdispatches.of_outcome hdispatched
  have hexpands : (expandTemplates settings dispatched).Yields fun program' =>
      ∀ item ∈ program'.items, item.IsStable ∧ item.Agrees table := by
    refine (Noted.yields_mapM fun item hitem => ?_).bind fun _ hitems => .pure hitems
    exact Item.expandTemplates_isStable (hunbound item hitem).1 (hunbound item hitem).2
  have hstable : ∀ item ∈ lowered.items, item.IsStable ∧ item.Agrees table := by
    rw [hitems]
    exact hexpands.of_outcome hexpanded
  exact Program.isStable_of_agrees hstable

/-- The text of a unit is that of the lowered unit. -/
theorem compile_outcome {program lowered : Program}
    (h : (lower settings program).outcome = .ok lowered) :
    (compile settings program).outcome = (Run.ofExcept (emit lowered)).outcome := by
  simp only [compile, bind, h]

/-- In a unit whose methods belong to named types, lowering what was lowered gives the same unit
again, imports, spans and made-up names included, and thus the same text. -/
theorem lower_idempotent {program lowered : Program}
    (hreceivers : ∀ f, .func f ∈ program.items → ∀ r ∈ f.receiver, r.ty.isReceiver = true)
    (h : (lower settings program).outcome = .ok lowered) :
    (lower settings lowered).outcome = .ok lowered ∧
      (compile settings lowered).outcome = (compile settings program).outcome := by
  have hstable : lowered.IsStable := lower_isStable hreceivers h
  have hagain : (lower settings lowered).outcome = .ok lowered :=
    (lower_of_isStable settings hstable).outcome
  refine ⟨hagain, ?_⟩
  rw [compile_outcome hagain, compile_outcome h]

/-- The unit `network`, once lowered, is lowered to itself. -/
theorem lower_idempotent_network :
    (∀ f, .func f ∈ network.items → ∀ r ∈ f.receiver, r.ty.isReceiver = true) ∧
      ∃ lowered, (lower {} network).outcome = .ok lowered ∧ lowered.items.length = 6 ∧
        (lower {} lowered).outcome = .ok lowered ∧
        (compile {} lowered).outcome = (compile {} network).outcome := by
  have hreceivers : ∀ f, .func f ∈ network.items → ∀ r ∈ f.receiver, r.ty.isReceiver = true := by
    intro f hf
    simp only [network, List.mem_cons, reduceCtorEq, Item.func.injEq, List.not_mem_nil, or_false,
      false_or] at hf
    rcases hf with rfl | rfl
    · intro r hr
      cases hr
    · intro r hr
      cases hr
      rfl
  -- The support code of states is the sixth item, so the first lowering does change the unit.
  have hcount : (lower {} network).outcome.toOption.map (·.items.length) = some 6 := by
    decide +kernel
  cases hlower : (lower {} network).outcome with
  | error faults => simp [hlower, Except.toOption] at hcount
  | ok lowered =>
    rw [hlower] at hcount
    exact ⟨hreceivers, lowered, rfl, Option.some.inj hcount, lower_idempotent hreceivers hlower⟩

end Desugar
