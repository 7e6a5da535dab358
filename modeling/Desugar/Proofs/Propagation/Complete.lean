import Desugar.Proofs.Pass.Settles
import Desugar.Proofs.Pass.Yields
import Desugar.Proofs.Propagation.Names
import Desugar.Proofs.Signature
import Desugar.Proofs.Template.Expand
import Desugar.Proofs.Tree.Occurrence

/-!
# Error propagation is complete

Of code whose types are lowered, error propagation without a fault leaves no `try` and no `throw`,
and it lowers the return clause of every function literal. A `try` that has nowhere to be hoisted
to, in a loop condition, a post statement, a launched call or a constant, is a fault.

The argument is the same for every property of nodes that the pass carries over. What it needs to
know of one is that inserted nodes have it, and that it holds of what becomes of the nodes that are
not kept as they are: `try`, `throw`, function literals and loops. One such property is that all
names come from the source, from the supply, or are among `Propagation.insertedNames`.

- `Propagation.Carries`: the nodes of the lowered code are good if those of the source are.
- `Propagation.CarriesTo`: the same for a property that depends on the names that are known.
- `Propagation.lowerExpr_settles` and the theorems beside it: one for each function of the pass.
- `propagateErrors_carries`: what the pass makes of a unit.
- `Propagation.named_lowerBlock`: the names in the lowered body of a function.
-/

namespace Desugar

namespace Propagation

open Pass

variable {cx : Context} {frame : Frame} {fixed known : List String} {T : Node.Trait fixed}

/-- The nodes of the zero values of the frame are good, whatever is known. -/
def Frame.IsSettled (T : Node.Trait fixed) (frame : Frame) : Prop :=
  ∀ known, Within (T.good known) (Expr.nodesList frame.zeros)

/-! ### Checks and parts without insertions -/

theorem checkDiscarded_settles (e : Expr) :
    (checkDiscarded cx e).Settles true T known fun _ => [] := by
  unfold checkDiscarded
  split
  · exact .fault
  · exact .pure within_nil

theorem checkCapture_settles (targets : Nat) (values : List Expr) :
    (checkCapture cx targets values).Settles true T known fun _ => [] := by
  unfold checkCapture
  split
  · split
    · exact .ite (fun _ => .fault) fun _ => .pure within_nil
    · exact .pure within_nil
  · exact .pure within_nil

/-- What the condition emits is dropped, and there is none: a `try` in it is a fault. -/
theorem loopCondition_settles {test : Expr} {lowered : Pass Expr}
    (h : lowered.Settles true T known Expr.nodes) :
    (loopCondition test lowered).Settles true T known Expr.nodes :=
  .ite (fun _ => .fault_bind) fun _ => h.collect.bind fun _ _ _ hx => .pure (within_append.mp hx).1

/-- A started call is good if it is lowered to a good one. -/
theorem launched_settles (launch : Launch) {call : Expr} {lowered : Pass Expr}
    (h : lowered.Settles true T known Expr.nodes) :
    (launched launch call lowered).Settles true T known Expr.nodes := by
  unfold launched
  split
  · exact .fault_bind
  · exact h

theorem literalShape_settles (returns : Option Ty) (span : Span) :
    (literalShape cx returns span).Settles true T known fun _ => [] := by
  unfold literalShape
  split
  · exact .pure within_nil
  · exact .fault_bind

/-- The return clause of a literal is lowered, or it is a fault. -/
theorem literalShape_isClause (returns : Option Ty) (span : Span) :
    (literalShape cx returns span).Ensures fun shape _ => Ty.isClause shape.clause = true := by
  unfold literalShape
  split
  · rename_i hshape
    exact ensures_pure (ReturnShape.isClause_clause (ReturnShape.all_isPlain_values hshape))
  · exact ensures_report_bind _ _

/-! ### Inserted code -/

/-- The zero values of every frame are good. -/
theorem Frame.isSettled_ofShape {settings : Settings} {T : Node.Trait (insertedNames settings)}
    (table : SignatureTable) (function : String) (shape : ReturnShape) :
    (Frame.ofShape table function shape).IsSettled T := by
  intro known
  show Within _ (Expr.nodesList (shape.values.map _))
  rw [within_exprs]
  intro e he
  obtain ⟨t, -, rfl⟩ := List.mem_map.mp he
  exact T.zero (by simp [insertedNames, Settings.globals]) _ t

/-- The return of an error is good if the error is. -/
theorem Frame.within_earlyReturn (hframe : frame.IsSettled T) {error : Expr}
    (h : Within (T.good known) error.nodes) (span : Span) :
    Within (T.good known) (frame.earlyReturn error span).nodes :=
  T.cons rfl rfl (within_exprs_append.mpr ⟨hframe known, within_expr.mpr h⟩)

/-! ### Operands -/

/-- A spilled operand is good, both where it is held and where it is used. -/
theorem spill_settles {e : Expr} (h : Within (T.good known) e.nodes) :
    (spill e).Settles true T known Expr.nodes := by
  refine .ite (fun _ => .pure h) fun _ => ?_
  refine (Settles.fresh "Tmp").bind fun name later hlater hname => .note_bind ?_
  exact .emit_bind (within_stmt.mpr (T.defineOne hname (h.grow hlater))) (.pure hname)

theorem spillBefore_settles {later : Bool} {e : Expr} (h : Within (T.good known) e.nodes) :
    (spillBefore later e).Settles true T known Expr.nodes :=
  .ite (fun _ => spill_settles h) fun _ => .pure h

/-- A pinned place is good. -/
theorem pin_settles {e : Expr} (h : Within (T.good known) e.nodes) :
    (pin e).Settles true T known Expr.nodes := by
  unfold pin
  split
  · obtain ⟨-, hbase, hindex⟩ := within_pair.mp h
    refine (spill_settles hbase).bind fun base later₁ h₁ hbase => ?_
    refine (spill_settles (hindex.grow h₁)).bind fun index later₂ h₂ hindex => ?_
    exact .pure (T.pair rfl rfl (hbase.grow h₂) hindex)
  · obtain ⟨-, hbase⟩ := within_cons.mp h
    exact (spill_settles hbase).bind fun base _ _ hbase => .pure (T.cons rfl rfl hbase)
  · obtain ⟨-, hoperand⟩ := within_cons.mp h
    exact (spill_settles hoperand).bind fun operand _ _ hoperand =>
      .pure (T.cons rfl rfl hoperand)
  · exact .pure h

/-! ### Hoisted calls -/

section Hoisted

variable {T : Node.Trait (insertedNames cx.settings)} (hframe : frame.IsSettled T)
  {attempt : Attempt} (h : attempt.lowered.Settles true T known Expr.nodes)

include hframe h

/-- The captured values are names, and the early return gives zero values and the error. -/
theorem hoist_settles (keep : Bool) :
    (hoist cx frame keep attempt).Settles true T known
      fun values => Expr.nodesList (values.getD []) := by
  refine .ite (fun _ => .fault_bind) fun _ => ?_
  split
  · split
    · refine .ite (fun _ => ?_) fun _ => .fault_bind
      rename_i sig _ _
      refine h.bind fun call later₁ h₁ hcall => ?_
      refine (Settles.freshList _).bind fun values later₂ h₂ hvalues => ?_
      refine (Settles.fresh "Err").bind fun error later₃ h₃ herror => ?_
      have htargets : Within (T.good later₃) (Expr.nodesList
          (((if keep then values else sig.values.map fun _ => "_") ++ [error]).map Expr.name)) := by
        rw [List.map_append]
        refine within_exprs_append.mpr ⟨?_, within_expr.mpr herror⟩
        -- Values that are not kept are captured by blanks.
        cases keep with
        | true => exact hvalues.grow h₃
        | false => exact T.names fun x hx => .inr (by simp_all [insertedNames])
      have hcapture := T.define htargets (within_expr.mpr ((hcall.grow h₂).grow h₃))
      have hreturn := Frame.within_earlyReturn hframe herror attempt.span
      refine .emit_bind ?_ (.note_bind (.pure (hvalues.grow h₃)))
      refine within_append.mpr ⟨hcapture, within_stmt.mpr ?_⟩
      exact T.onlyIf (T.isNotNil herror) (within_stmt.mpr hreturn)
    · exact .fault_bind
  · exact .fault_bind

/-- A hoisted `try` leaves good code behind. -/
theorem attemptValue_settles :
    (attemptValue cx frame attempt).Settles true T known Expr.nodes := by
  refine (hoist_settles hframe h true).bind fun values later _ hvalues => ?_
  match values, hvalues with
  | some [value], hvalues => exact .pure (within_expr.mp hvalues)
  | some [], _ => exact .fault_bind
  | some (_ :: _ :: _), _ => exact .fault_bind
  | none, _ => exact .pure (T.leaf rfl rfl)

/-- A `try` that stands alone leaves good code behind. -/
theorem attemptValues_settles (expected : Nat) :
    (attemptValues cx frame expected attempt).Settles true T known Expr.nodesList := by
  refine (hoist_settles hframe h true).bind fun values later _ hvalues => ?_
  match values, hvalues with
  | some values, hvalues => exact Settles.ite (fun _ => .pure hvalues) fun _ => .fault_bind
  | none, _ => exact .pure within_nil

end Hoisted

/-! ### Values of statements -/

section Values

variable {T : Node.Trait (insertedNames cx.settings)} (hframe : frame.IsSettled T)
  {values : List Expr} {sole : Option Attempt} {ordered : Pass (List Expr)}
  (hsole : ∀ attempt ∈ sole, attempt.lowered.Settles true T known Expr.nodes)
  (hordered : ordered.Settles true T known Expr.nodesList)

include hframe hsole hordered

/-- Assigned values are good if they are lowered to good ones. -/
theorem assigned_settles (targets : Nat) :
    (assigned cx frame targets values sole ordered).Settles true T known Expr.nodesList := by
  cases sole with
  | some attempt =>
    exact .ite (fun _ => attemptValues_settles hframe (hsole attempt rfl) targets) fun _ => hordered
  | none =>
    exact (checkCapture_settles targets values).bind fun _ _ hlater _ => hordered.mono hlater

/-- Returned values are good if they are lowered to good ones. -/
theorem returned_settles (span : Span) :
    (returned cx frame values span sole ordered).Settles true T known Expr.nodesList := by
  have hnil {known : List String} : Within (T.good known) (Expr.nodesList [Expr.nil]) :=
    within_expr.mpr (T.leaf rfl rfl)
  cases sole with
  | some attempt =>
    refine (attemptValues_settles hframe (hsole attempt rfl) _).bind fun values _ _ hvalues => ?_
    exact .pure (within_exprs_append.mpr ⟨hvalues, hnil⟩)
  | none =>
    refine .ite (fun _ => hordered) fun _ => .ite (fun _ => ?_) fun _ => ?_
    · exact hordered.bind fun _ _ _ hvalues => .pure (within_exprs_append.mpr ⟨hvalues, hnil⟩)
    · exact .ite (fun _ => hordered) fun _ => .fault_bind

end Values

/-- A thrown template is formatted into an error, so only its embeds are left of it. -/
theorem errorValue_settles {T : Node.Trait (insertedNames cx.settings)} {e : Expr}
    (h : Within (T.good known) e.nodes) :
    (errorValue cx.settings e).Settles true T known Expr.nodes := by
  unfold errorValue
  split
  · refine .note_bind (.pure ?_)
    exact T.pair rfl rfl (T.reference (by simp [insertedNames, Settings.globals]))
      (within_expr.mpr (T.leaf rfl rfl))
  · split
    · rename_i expanded hexpand
      obtain ⟨⟨text, args⟩, hformat, hexpand⟩ := bind_eq_ok hexpand
      cases hexpand
      have hargs : Within (T.good known) (Expr.nodesList args) := by
        rw [Template.nodesList_format hformat]
        exact (within_cons.mp h).2
      refine .note_bind (.pure ?_)
      exact T.pair rfl rfl (T.reference (by simp [insertedNames, Settings.globals]))
        (within_append.mpr ⟨T.leaf rfl rfl, hargs⟩)
    · intro supply hstrict
      cases hstrict rfl
  · exact .pure h

/-! ### The pass over a loop header -/

/-- Except for a `try`, what becomes of a simple statement ends with one that fits on a line. -/
theorem lowerStmt_ends {stmt : Stmt} (h : stmt.isSimple = true)
    (hattempt : stmt.isAttempt = false) :
    (lowerStmt cx frame stmt).Ends fun last => last.isInline = true := by
  cases stmt with
  | expr value =>
    cases value with
    | attempt operand span => cases hattempt
    | _ => exact .after fun _ => .after fun value => ends_emit rfl
  | assign targets op values span =>
    exact .after fun targets => .after fun values => ends_emit rfl
  | var names ty values span => exact .after fun values => ends_emit rfl
  | ret values span =>
    exact .ite (fun _ => Ends.after fun values => ends_emit rfl)
      fun _ => Ends.after fun values => ends_emit rfl
  | throw value span =>
    refine .ite (fun _ => ?_) fun _ => ensures_report _ _
    exact Ends.after fun value => Ends.after fun error => ends_emit rfl
  | go call span => exact .after fun _ => .after fun call => ends_emit rfl
  | defer call span => exact .after fun _ => .after fun call => ends_emit rfl
  | breakLoop span => exact ends_emit rfl
  | continueLoop span => exact ends_emit rfl
  | cond branch => cases h
  | loop clause body span => cases h
  | bind names call span => cases h
  | block body => cases h

/-- The first statement of a loop header still fits on a line, unless it is a `try`. -/
theorem lowerFirst_isInline (first : Option Stmt) :
    (lowerFirst cx frame first).Ensures fun first' _ =>
      first.all Stmt.isSimple = true → first.any Stmt.isAttempt = false →
        first'.all Stmt.isInline = true := by
  cases first with
  | none => exact ensures_pure fun _ _ => rfl
  | some stmt =>
    by_cases hsimple : stmt.isSimple = true
    · by_cases hattempt : stmt.isAttempt = true
      · exact fun _ _ _ h => absurd hattempt (Bool.eq_false_iff.mp h)
      · refine (lowerStmt_ends hsimple (Bool.eq_false_iff.mpr hattempt)).collect.bind
          fun x _ ⟨_, last, hlast, hinline⟩ => ensures_emit_pure fun _ _ => ?_
        rw [hlast]
        exact hinline
    · exact fun _ _ h => absurd h hsimple

/-- A post statement that is a `try` is a fault. -/
theorem lowerPost_isInline (post : Option Stmt) :
    (lowerPost cx frame post).Ensures fun post' _ =>
      post.all Stmt.isSimple = true → post'.all Stmt.isInline = true := by
  cases post with
  | none => exact ensures_pure fun _ => rfl
  | some stmt =>
    refine .ite (fun _ => ensures_report_bind _ _) fun hcontains => ?_
    have hattempt : stmt.isAttempt = false :=
      Stmt.isAttempt_of_containsAttempt (Bool.eq_false_iff.mpr hcontains)
    by_cases hsimple : stmt.isSimple = true
    · refine (lowerStmt_ends hsimple hattempt).collect.bind
        fun x _ ⟨_, last, hlast, hinline⟩ => ensures_pure fun _ => ?_
      rw [hlast]
      exact hinline
    · exact fun _ _ h => absurd h hsimple

/-- The header may take the place of another one: if this is ready, it fits on a line, and it
declares the same variables. -/
structure Replaces (clause' clause : Clause) : Prop where
  isInline : clause.isReady = true → clause'.isInline = true
  bound : clause'.bound = clause.bound

/-- What becomes of a header may take its place. -/
theorem lowerClause_replaces (clause : Clause) :
    (lowerClause cx frame clause).Ensures fun clause' _ => Replaces clause' clause := by
  have hany {α : Type} (p : Pass α) : p.Ensures fun _ _ => True := fun _ _ => trivial
  cases clause with
  | infinite => exact ensures_pure ⟨fun _ => rfl, rfl⟩
  | condition test => exact (hany _).bind fun _ _ _ => ensures_pure ⟨fun _ => rfl, rfl⟩
  | three first condition post =>
    refine (lowerFirst_isInline first).bind fun first' _ hfirst => ?_
    refine (hany _).bind fun condition' _ _ => ?_
    refine (lowerPost_isInline post).bind fun post' _ hpost => ensures_pure ⟨fun h => ?_, rfl⟩
    obtain ⟨hsimple, hattempt⟩ := Bool.and_eq_true_iff.mp h
    obtain ⟨hfirst', hpost'⟩ := Bool.and_eq_true_iff.mp hsimple
    have hattempt : first.any Stmt.isAttempt = false := by simpa [Clause.isAttempt] using hattempt
    exact Bool.and_eq_true_iff.mpr ⟨hfirst hfirst' hattempt, hpost hpost'⟩
  | range key value define source =>
    exact (hany _).bind fun _ _ _ => ensures_pure ⟨fun _ => rfl, rfl⟩

/-! ### Carried properties -/

/-- The nodes of lowered code are good for `target` if those of the source are good for `source`. -/
structure Carries (source target : Node → Bool) : Prop extends Node.IsLocal target where
  kept : ∀ {node}, node.isRewritten = false → source node = true → target node = true
  func : ∀ {params returns body span clause body'},
    source (.expr (.func params returns body span)) = true → Ty.isClause clause = true →
      target (.expr (.func params clause body' span)) = true
  loop : ∀ {clause body span clause' body'}, source (.stmt (.loop clause body span)) = true →
    (clause.isReady = true → clause'.isInline = true) →
      target (.stmt (.loop clause' body' span)) = true

variable {source target : Node → Bool}

/-- Error propagation leaves no `try`, no `throw` and no extended return clause behind. -/
theorem carries_isTyped : Carries Node.isTyped Node.isPropagated where
  toIsLocal := Node.isLocal_isPropagated
  kept {node} hkept h := by
    match node with
    | .expr e =>
      cases e with
      | attempt operand span => cases hkept
      | func params returns body span => cases hkept
      | _ => exact h
    | .stmt stmt =>
      cases stmt with
      | throw value span => cases hkept
      | _ => exact h
  func h hclause := Bool.and_eq_true_iff.mpr ⟨h, hclause⟩
  loop _ _ := rfl

/-- Two properties are carried over together. -/
theorem Carries.and {source' target' : Node → Bool} (h : Carries source target)
    (h' : Carries source' target') :
    Carries (fun node => source node && source' node) fun node => target node && target' node where
  shell node := by rw [h.shell node, h'.shell node]
  inserted node hnode := by rw [h.inserted node hnode, h'.inserted node hnode]; rfl
  kept hkept hnode := by
    obtain ⟨hsource, hsource'⟩ := Bool.and_eq_true_iff.mp hnode
    exact Bool.and_eq_true_iff.mpr ⟨h.kept hkept hsource, h'.kept hkept hsource'⟩
  func hnode hclause := by
    obtain ⟨hsource, hsource'⟩ := Bool.and_eq_true_iff.mp hnode
    exact Bool.and_eq_true_iff.mpr ⟨h.func hsource hclause, h'.func hsource' hclause⟩
  loop hnode hclause := by
    obtain ⟨hsource, hsource'⟩ := Bool.and_eq_true_iff.mp hnode
    exact Bool.and_eq_true_iff.mpr ⟨h.loop hsource hclause, h'.loop hsource' hclause⟩

/-- The nodes of lowered code have the trait if those of the source are good for `source`. -/
structure CarriesTo (source : List String → Node → Bool) (T : Node.Trait fixed) : Prop where
  kept : ∀ {known node}, node.isRewritten = false → source known node = true →
    T.good known node = true
  func : ∀ {known params returns body span clause body'},
    source known (.expr (.func params returns body span)) = true → Ty.isClause clause = true →
      T.good known (.expr (.func params clause body' span)) = true
  loop : ∀ {known clause body span clause' body'},
    source known (.stmt (.loop clause body span)) = true → Replaces clause' clause →
      T.good known (.stmt (.loop clause' body' span)) = true

/-- A property that does not depend on names is carried over whatever is known. -/
theorem Carries.carriesTo (hc : Carries source target) :
    CarriesTo (fun _ => source) (hc.toIsLocal.trait fixed) where
  kept := hc.kept
  func := hc.func
  loop h hreplaces := hc.loop h hreplaces.isInline

/-- Names are kept, also where the rest of a node is not. -/
theorem carriesTo_named : CarriesTo (Node.Trait.named fixed).good (.named fixed) where
  kept _ h := h
  func h _ := h
  loop {known clause body span clause' body'} h hreplaces := by
    have hnames : (Node.stmt (.loop clause body span)).names =
        (Node.stmt (.loop clause' body' span)).names := by
      rw [Node.names_loop, Node.names_loop, hreplaces.bound]
    exact (Node.isNamedIn_congr hnames).symm.trans h

/-! ### The pass over a body

The induction is on the code. The frame changes at function literals, so it is not fixed. -/

section Body

-- In a mutual induction the linter does not see a hypothesis that is used in another theorem.
set_option linter.unusedSectionVars false

variable {T : Node.Trait (insertedNames cx.settings)} {source : List String → Node → Bool}
  (hc : CarriesTo source T)

include hc

mutual
theorem lowerExpr_settles {frame : Frame} (hframe : frame.IsSettled T) :
    ∀ e : Expr, Within (source known) e.nodes →
      (lowerExpr cx frame e).Settles true T known Expr.nodes
  | .ident _ _, h => .pure (within_leaf.mpr (hc.kept rfl (within_leaf.mp h)))
  | .lit _ _, h => .pure (within_leaf.mpr (hc.kept rfl (within_leaf.mp h)))
  | .ofType _ _, h => .pure (within_leaf.mpr (hc.kept rfl (within_leaf.mp h)))
  | .attempt operand span, h =>
    attemptValue_settles hframe (lowerExpr_settles hframe operand (within_cons.mp h).2)
  | .binary op left right span, h => by
    obtain ⟨-, hleft, hright⟩ := within_pair.mp h
    have hlowered := lowerExpr_settles hframe right hright
    refine .ite (fun _ => ?_) fun _ => ?_
    · refine (lowerExpr_settles hframe left hleft).bind fun left later₁ h₁ hleft => ?_
      refine (Settles.fresh "Cond").bind fun name later₂ h₂ hname => ?_
      refine .emit_bind (within_stmt.mpr (T.defineOne hname (hleft.grow h₂))) ?_
      refine ((hlowered.mono h₁).mono h₂).collect.bind fun ⟨right, code⟩ later₃ h₃ hx => ?_
      obtain ⟨hright, hcode⟩ := within_append.mp hx
      have hname : Within (T.good later₃) (Expr.name name).nodes := hname.grow h₃
      -- What the right operand needs moves behind the guard together with its value.
      have hbody : Within (T.good later₃) (Stmt.nodesList (code ++ [Stmt.store name right])) :=
        within_stmts_append.mpr ⟨hcode, within_stmt.mpr
          (T.pair rfl rfl (within_expr.mpr hname) (within_expr.mpr hright))⟩
      refine .note_bind (.emit_bind (within_stmt.mpr (T.onlyIf ?_ hbody)) (.pure hname))
      cases op with
      | or => exact T.cons rfl rfl hname
      | _ => exact hname
    · refine (lowerExpr_settles hframe left hleft).bind fun left later₁ h₁ hleft => ?_
      refine (spillBefore_settles hleft).bind fun left later₂ h₂ hleft => ?_
      refine ((hlowered.mono h₁).mono h₂).bind fun right later₃ h₃ hright => ?_
      exact .pure (T.pair rfl rfl (hleft.grow h₃) hright)
  | .call callee args span, h => by
    obtain ⟨-, hcallee, hargs⟩ := within_pair.mp h
    have hlowered := lowerOrdered_settles hframe args hargs
    refine (lowerExpr_settles hframe callee hcallee).bind fun callee later₁ h₁ hcallee => ?_
    refine (spillBefore_settles hcallee).bind fun callee later₂ h₂ hcallee => ?_
    refine ((hlowered.mono h₁).mono h₂).bind fun args later₃ h₃ hargs => ?_
    exact .pure (T.pair rfl rfl (hcallee.grow h₃) hargs)
  | .unary op operand span, h =>
    (lowerExpr_settles hframe operand (within_cons.mp h).2).bind
      fun _ _ _ hoperand => .pure (T.cons rfl rfl hoperand)
  | .selector base field span, h =>
    (lowerExpr_settles hframe base (within_cons.mp h).2).bind
      fun _ _ _ hbase => .pure (T.cons rfl rfl hbase)
  | .index base index span, h => by
    obtain ⟨-, hbase, hindex⟩ := within_pair.mp h
    have hlowered := lowerExpr_settles hframe index hindex
    refine (lowerExpr_settles hframe base hbase).bind fun base later₁ h₁ hbase => ?_
    refine (spillBefore_settles hbase).bind fun base later₂ h₂ hbase => ?_
    refine ((hlowered.mono h₁).mono h₂).bind fun index later₃ h₃ hindex => ?_
    exact .pure (T.pair rfl rfl (hbase.grow h₃) hindex)
  | .composite ty elements span, h => by
    obtain ⟨hnode, helements⟩ := within_cons.mp h
    exact (lowerElements_settles hframe elements helements).bind fun elements _ hlater helements =>
      .pure (within_cons.mpr ⟨T.kept (hc.kept rfl hnode) rfl rfl hlater, helements⟩)
  | .template segments span, h => by
    obtain ⟨hnode, hsegments⟩ := within_cons.mp h
    exact (lowerSegments_settles hframe segments hsegments).bind fun segments _ hlater hsegments =>
      .pure (within_cons.mpr ⟨T.kept (hc.kept rfl hnode) rfl rfl hlater, hsegments⟩)
  | .func params returns body span, h => by
    obtain ⟨hnode, hbody⟩ := within_cons.mp h
    -- The body belongs to the frame of the literal, not to the one around it.
    refine (literalShape_settles returns span).bind_and (R := (Ty.isClause ·.clause = true))
      (fun supply hstrict => literalShape_isClause returns span supply (hstrict rfl))
      fun shape later₁ h₁ _ hshape => ?_
    have hliteral : (Frame.ofShape cx.table frame.literalName shape).IsSettled T :=
      Frame.isSettled_ofShape _ _ _
    have hlowered := lowerBlock_settles hliteral body hbody
    refine (hlowered.mono h₁).bind fun body later₂ h₂ hbody => ?_
    exact .pure (within_cons.mpr ⟨T.grow h₂ (T.grow h₁ (hc.func hnode hshape)), hbody⟩)

theorem lowerOrdered_settles {frame : Frame} (hframe : frame.IsSettled T) :
    ∀ es : List Expr, Within (source known) (Expr.nodesList es) →
      (lowerOrdered cx frame es).Settles true T known Expr.nodesList
  | [], _ => .pure within_nil
  | e :: rest, h => by
    obtain ⟨he, hrest⟩ := within_append.mp h
    have hlowered := lowerOrdered_settles hframe rest hrest
    refine (lowerExpr_settles hframe e he).bind fun e later₁ h₁ he => ?_
    refine (spillBefore_settles he).bind fun e later₂ h₂ he => ?_
    refine ((hlowered.mono h₁).mono h₂).bind fun rest later₃ h₃ hrest => ?_
    exact .pure (within_append.mpr ⟨he.grow h₃, hrest⟩)

theorem lowerTargets_settles {frame : Frame} (hframe : frame.IsSettled T) (spilling : Bool) :
    ∀ es : List Expr, Within (source known) (Expr.nodesList es) →
      (lowerTargets cx frame spilling es).Settles true T known Expr.nodesList
  | [], _ => .pure within_nil
  | e :: rest, h => by
    obtain ⟨he, hrest⟩ := within_append.mp h
    have hlowered := lowerTargets_settles hframe spilling rest hrest
    refine (lowerExpr_settles hframe e he).bind fun e later₁ h₁ he => ?_
    -- Pinned or not, the target is followed by the others.
    have hfinish (e : Expr) (later : List String) (hlater : later₁ ⊆ later)
        (he : Within (T.good later) e.nodes) :
        (lowerTargets cx frame spilling rest >>= fun rest => pure (e :: rest)).Settles true T
          later Expr.nodesList :=
      ((hlowered.mono h₁).mono hlater).bind fun rest later₂ h₂ hrest =>
        .pure (within_append.mpr ⟨he.grow h₂, hrest⟩)
    exact Settles.ite (fun _ => (pin_settles he).bind hfinish)
      fun _ => hfinish e later₁ (List.Subset.refl later₁) he

theorem soleAttempt_settles {frame : Frame} (hframe : frame.IsSettled T) :
    ∀ es : List Expr, Within (source known) (Expr.nodesList es) →
      ∀ attempt ∈ soleAttempt cx frame es, attempt.lowered.Settles true T known Expr.nodes
  | [], _ => nofun
  | [e], h => by
    cases e with
    | attempt operand span =>
      rintro _ ⟨⟩
      exact lowerExpr_settles hframe operand (within_cons.mp (within_expr.mp h)).2
    | _ => nofun
  | e :: _ :: _, _ => by cases e <;> nofun

theorem lowerElements_settles {frame : Frame} (hframe : frame.IsSettled T) :
    ∀ elements : List Element, Within (source known) (Element.nodesList elements) →
      (lowerElements cx frame elements).Settles true T known Element.nodesList
  | [], _ => .pure within_nil
  | ⟨none, value⟩ :: rest, h => by
    obtain ⟨hvalue, hrest⟩ := within_append.mp h
    have hlowered := lowerElements_settles hframe rest hrest
    refine (lowerExpr_settles hframe value hvalue).bind fun value later₁ h₁ hvalue => ?_
    refine (spillBefore_settles hvalue).bind fun value later₂ h₂ hvalue => ?_
    refine ((hlowered.mono h₁).mono h₂).bind fun rest later₃ h₃ hrest => ?_
    exact .pure (within_append.mpr ⟨hvalue.grow h₃, hrest⟩)
  | ⟨some key, value⟩ :: rest, h => by
    obtain ⟨hkeyed, hrest⟩ := within_append.mp h
    obtain ⟨hkey, hvalue⟩ := within_append.mp hkeyed
    have hlowered := lowerElements_settles hframe rest hrest
    have hloweredValue := lowerExpr_settles hframe value hvalue
    refine (lowerExpr_settles hframe key hkey).bind fun key later₁ h₁ hkey => ?_
    refine (spillBefore_settles hkey).bind fun key later₂ h₂ hkey => ?_
    refine ((hloweredValue.mono h₁).mono h₂).bind fun value later₃ h₃ hvalue => ?_
    refine (spillBefore_settles hvalue).bind fun value later₄ h₄ hvalue => ?_
    refine ((((hlowered.mono h₁).mono h₂).mono h₃).mono h₄).bind fun rest later₅ h₅ hrest => ?_
    have hkeyed := within_append.mpr ⟨(hkey.grow h₃).grow h₄, hvalue⟩
    exact .pure (within_append.mpr ⟨hkeyed.grow h₅, hrest⟩)

theorem lowerSegments_settles {frame : Frame} (hframe : frame.IsSettled T) :
    ∀ segments : List Segment, Within (source known) (Segment.nodesList segments) →
      (lowerSegments cx frame segments).Settles true T known Segment.nodesList
  | [], _ => .pure within_nil
  | .text _ :: rest, h =>
    (lowerSegments_settles hframe rest h).bind fun _ _ _ hrest => .pure hrest
  | .embed value _ _ :: rest, h => by
    obtain ⟨hvalue, hrest⟩ := within_append.mp h
    have hlowered := lowerSegments_settles hframe rest hrest
    refine (lowerExpr_settles hframe value hvalue).bind fun value later₁ h₁ hvalue => ?_
    refine (spillBefore_settles hvalue).bind fun value later₂ h₂ hvalue => ?_
    refine ((hlowered.mono h₁).mono h₂).bind fun rest later₃ h₃ hrest => ?_
    exact .pure (within_append.mpr ⟨hvalue.grow h₃, hrest⟩)

theorem lowerBlock_settles {frame : Frame} (hframe : frame.IsSettled T) :
    ∀ block : Block, Within (source known) block.nodes →
      (lowerBlock cx frame block).Settles true T known Block.nodes
  | ⟨stmts, _⟩, h => (lowerStmts_settles hframe stmts h).collect.bind fun _ _ _ hx => .pure hx

theorem lowerStmts_settles {frame : Frame} (hframe : frame.IsSettled T) :
    ∀ stmts : List Stmt, Within (source known) (Stmt.nodesList stmts) →
      (lowerStmts cx frame stmts).Settles true T known fun _ => []
  | [], _ => .pure within_nil
  | stmt :: rest, h => by
    obtain ⟨hstmt, hrest⟩ := within_append.mp h
    have hlowered := lowerStmts_settles hframe rest hrest
    exact (lowerStmt_settles hframe stmt hstmt).bind fun _ _ hlater _ => hlowered.mono hlater

theorem lowerStmt_settles {frame : Frame} (hframe : frame.IsSettled T) :
    ∀ stmt : Stmt, Within (source known) stmt.nodes →
      (lowerStmt cx frame stmt).Settles true T known fun _ => []
  | .expr value, h => by
    obtain ⟨-, hvalue⟩ := within_cons.mp h
    have hlowered := lowerExpr_settles hframe value hvalue
    cases value with
    | attempt operand span =>
      have hlowered := lowerExpr_settles hframe operand (within_cons.mp hvalue).2
      exact (hoist_settles hframe hlowered false).bind fun _ _ _ _ => .pure within_nil
    | _ =>
      refine (checkDiscarded_settles _).bind fun _ later₁ h₁ _ => ?_
      refine (hlowered.mono h₁).bind fun value later₂ h₂ hvalue => ?_
      exact .emit (within_stmt.mpr (T.cons rfl rfl hvalue))
  | .assign targets op values span, h => by
    obtain ⟨-, htargets, hvalues⟩ := within_pair.mp h
    have hsole := soleAttempt_settles hframe values hvalues
    have hordered := lowerOrdered_settles hframe values hvalues
    refine (lowerTargets_settles hframe _ targets htargets).bind
      fun targets later₁ h₁ htargets => ?_
    have hassigned : (assigned cx frame targets.length values _ _).Settles true T known _ :=
      assigned_settles hframe hsole hordered targets.length
    refine (hassigned.mono h₁).bind fun values later₂ h₂ hvalues => ?_
    exact .emit (within_stmt.mpr (T.pair rfl rfl (htargets.grow h₂) hvalues))
  | .var names ty values span, h => by
    obtain ⟨hnode, hvalues⟩ := within_cons.mp h
    refine (assigned_settles hframe (soleAttempt_settles hframe values hvalues)
      (lowerOrdered_settles hframe values hvalues) _).bind fun values _ hlater hvalues => ?_
    exact .emit (within_stmt.mpr
      (within_cons.mpr ⟨T.kept (hc.kept rfl hnode) rfl rfl hlater, hvalues⟩))
  | .ret values span, h => by
    obtain ⟨-, hvalues⟩ := within_cons.mp h
    have hordered := lowerOrdered_settles hframe values hvalues
    have hsole := soleAttempt_settles hframe values hvalues
    have hfinish (values : List Expr) (later : List String) (_ : known ⊆ later)
        (hvalues : Within (T.good later) (Expr.nodesList values)) :
        (Pass.emit [.ret values span]).Settles true T later fun _ => [] :=
      .emit (within_stmt.mpr (T.cons rfl rfl hvalues))
    exact Settles.ite (fun _ => (returned_settles hframe hsole hordered span).bind hfinish)
      fun _ => hordered.bind hfinish
  | .throw value span, h => by
    obtain ⟨-, hvalue⟩ := within_cons.mp h
    refine .ite (fun _ => ?_) fun _ => .fault
    refine (lowerExpr_settles hframe value hvalue).bind fun value _ _ hvalue => ?_
    refine (errorValue_settles hvalue).bind fun error _ _ herror => ?_
    exact .emit (within_stmt.mpr (Frame.within_earlyReturn hframe herror span))
  | .cond branch, h =>
    (lowerIf_settles hframe branch (within_cons.mp h).2).bind
      fun _ _ _ hbranch => .emit (within_stmt.mpr (T.cons rfl rfl hbranch))
  | .loop clause body span, h => by
    obtain ⟨hnode, hclause, hbody⟩ := within_pair.mp h
    have hlowered := lowerBlock_settles hframe body hbody
    refine (lowerClause_settles hframe clause hclause).collect.bind_and (R := (Replaces ·.1 clause))
      (fun supply hstrict => lowerClause_replaces clause supply (hstrict rfl))
      fun ⟨lowered, before⟩ later₁ h₁ hx hreplaces => ?_
    obtain ⟨hclause, hbefore⟩ := within_append.mp hx
    refine (hlowered.mono h₁).bind fun body later₂ h₂ hbody => ?_
    have hloop : Within (T.good later₂) (Stmt.loop lowered body span).nodes :=
      within_pair.mpr ⟨T.grow h₂ (T.grow h₁ (hc.loop hnode hreplaces)), hclause.grow h₂, hbody⟩
    have hcode : Within (T.good later₂) (Stmt.nodesList (before ++ [.loop lowered body span])) :=
      within_stmts_append.mpr ⟨hbefore.grow h₂, within_stmt.mpr hloop⟩
    -- With a block around them or not, the same statements are emitted.
    exact .ite (fun _ => .emit (within_stmt.mpr (T.cons rfl rfl hcode))) fun _ => .emit hcode
  | .bind names call span, h => by
    obtain ⟨hnode, hcall⟩ := within_cons.mp h
    refine (launched_settles _ (lowerExpr_settles hframe call hcall)).bind
      fun call _ hlater hcall => ?_
    exact .emit (within_stmt.mpr
      (within_cons.mpr ⟨T.kept (hc.kept rfl hnode) rfl rfl hlater, hcall⟩))
  | .go call span, h => by
    have hlowered := lowerExpr_settles hframe call (within_cons.mp h).2
    refine (checkDiscarded_settles _).bind fun _ later₁ h₁ _ => ?_
    exact (launched_settles .go (hlowered.mono h₁)).bind
      fun call _ _ hcall => .emit (within_stmt.mpr (T.cons rfl rfl hcall))
  | .defer call span, h => by
    have hlowered := lowerExpr_settles hframe call (within_cons.mp h).2
    refine (checkDiscarded_settles _).bind fun _ later₁ h₁ _ => ?_
    exact (launched_settles .defer (hlowered.mono h₁)).bind
      fun call _ _ hcall => .emit (within_stmt.mpr (T.cons rfl rfl hcall))
  | .block body, h =>
    (lowerBlock_settles hframe body (within_cons.mp h).2).bind
      fun _ _ _ hbody => .emit (within_stmt.mpr (T.cons rfl rfl hbody))
  | .breakLoop _, _ => .emit (within_stmt.mpr (T.leaf rfl rfl))
  | .continueLoop _, _ => .emit (within_stmt.mpr (T.leaf rfl rfl))

theorem lowerIf_settles {frame : Frame} (hframe : frame.IsSettled T) :
    ∀ branch : If, Within (source known) branch.nodes →
      (lowerIf cx frame branch).Settles true T known If.nodes
  | ⟨condition, thenBlock, otherwise, _⟩, h => by
    obtain ⟨h, hotherwise⟩ := within_append.mp h
    obtain ⟨hcondition, hthen⟩ := within_append.mp h
    have hloweredThen := lowerBlock_settles hframe thenBlock hthen
    have hloweredElse := lowerElse_settles hframe otherwise hotherwise
    refine (lowerExpr_settles hframe condition hcondition).bind
      fun condition later₁ h₁ hcondition => ?_
    refine (hloweredThen.mono h₁).bind fun thenBlock later₂ h₂ hthen => ?_
    refine ((hloweredElse.mono h₁).mono h₂).bind fun otherwise later₃ h₃ hotherwise => ?_
    have htested := within_append.mpr ⟨hcondition.grow h₂, hthen⟩
    exact .pure (within_append.mpr ⟨htested.grow h₃, hotherwise⟩)

theorem lowerElse_settles {frame : Frame} (hframe : frame.IsSettled T) :
    ∀ otherwise : Else, Within (source known) otherwise.nodes →
      (lowerElse cx frame otherwise).Settles true T known Else.nodes
  | .none, _ => .pure within_nil
  | .block body, h => (lowerBlock_settles hframe body h).bind fun _ _ _ hbody => .pure hbody
  | .elseIf branch, h => by
    refine (lowerIf_settles hframe branch h).collect.bind fun ⟨branch, before⟩ _ _ hx => ?_
    obtain ⟨hbranch, hbefore⟩ := within_append.mp hx
    refine .ite (fun _ => .pure hbranch) fun _ => .pure ?_
    exact within_stmts_append.mpr ⟨hbefore, within_stmt.mpr (T.cons rfl rfl hbranch)⟩

theorem lowerClause_settles {frame : Frame} (hframe : frame.IsSettled T) :
    ∀ clause : Clause, Within (source known) clause.nodes →
      (lowerClause cx frame clause).Settles true T known Clause.nodes
  | .infinite, _ => .pure within_nil
  | .condition test, h =>
    (loopCondition_settles (lowerExpr_settles hframe test h)).bind fun _ _ _ htest => .pure htest
  | .three first condition post, h => by
    obtain ⟨h, hpost⟩ := within_append.mp h
    obtain ⟨hfirst, hcondition⟩ := within_append.mp h
    have hloweredCondition := lowerCondition_settles hframe condition hcondition
    have hloweredPost := lowerPost_settles hframe post hpost
    refine (lowerFirst_settles hframe first hfirst).bind fun first later₁ h₁ hfirst => ?_
    refine (hloweredCondition.mono h₁).bind fun condition later₂ h₂ hcondition => ?_
    refine ((hloweredPost.mono h₁).mono h₂).bind fun post later₃ h₃ hpost => ?_
    have htested := within_append.mpr ⟨hfirst.grow h₂, hcondition⟩
    exact .pure (within_append.mpr ⟨htested.grow h₃, hpost⟩)
  | .range _ _ _ range, h =>
    (lowerExpr_settles hframe range h).bind fun _ _ _ hrange => .pure hrange

theorem lowerFirst_settles {frame : Frame} (hframe : frame.IsSettled T) :
    ∀ first : Option Stmt, Within (source known) (Stmt.nodesOption first) →
      (lowerFirst cx frame first).Settles true T known Stmt.nodesOption
  | none, _ => .pure within_nil
  | some stmt, h => by
    refine (lowerStmt_settles hframe stmt h).collect.bind fun x _ _ hx => ?_
    exact .emit_bind (within_dropLast hx) (.pure (within_getLast? hx))

theorem lowerCondition_settles {frame : Frame} (hframe : frame.IsSettled T) :
    ∀ condition : Option Expr, Within (source known) (Expr.nodesOption condition) →
      (lowerCondition cx frame condition).Settles true T known Expr.nodesOption
  | none, _ => .pure within_nil
  | some test, h =>
    (loopCondition_settles (lowerExpr_settles hframe test h)).bind fun _ _ _ htest => .pure htest

theorem lowerPost_settles {frame : Frame} (hframe : frame.IsSettled T) :
    ∀ post : Option Stmt, Within (source known) (Stmt.nodesOption post) →
      (lowerPost cx frame post).Settles true T known Stmt.nodesOption
  | none, _ => .pure within_nil
  | some stmt, h => by
    refine .ite (fun _ => .fault_bind) fun _ => ?_
    refine (lowerStmt_settles hframe stmt h).collect.bind fun x _ _ hx => ?_
    exact .pure (within_getLast? hx)
end

end Body

/-- Every name in the lowered body of a function is one of the source, one that was taken from the
supply, or one that is inserted as it is. -/
theorem named_lowerBlock (cx : Context) (table : SignatureTable) (function : String)
    (shape : ReturnShape) (body : Block) (supply : NameSupply) :
    let pass := lowerBlock cx (.ofShape table function shape) body
    let T := Node.Trait.named (insertedNames cx.settings)
    (pass supply).notes.faults = [] →
      Within (T.good (pass.drawn supply ++ body.nodes.flatMap Node.names))
        (pass.runWith supply).value.nodes := by
  intro pass T hfaults
  have hframe : (Frame.ofShape table function shape).IsSettled T :=
    Frame.isSettled_ofShape _ _ _
  have hlowered : pass.Settles true T (body.nodes.flatMap Node.names) Block.nodes :=
    lowerBlock_settles carriesTo_named hframe body .named_self
  exact hlowered.runWith supply fun _ => hfaults

/-! ### The pass over a unit -/

/-- A function keeps all but its return clause and its body, and the nodes of the new body are good.
-/
theorem lowerFunction_yields {table : SignatureTable} {settings : Settings} {f : Function}
    {sig : Signature} (hc : Carries source target) (hbody : Within source f.body.nodes) :
    (lowerFunction table settings f sig).Yields fun f' => ∃ body,
      f' = { f with returns := sig.clause, body } ∧ Within target body.nodes := by
  let cx : Context := { Scope.ofFunction table f with settings }
  have hframe : (Frame.ofShape table f.name sig.returns).IsSettled
      (hc.toIsLocal.trait (insertedNames cx.settings)) :=
    Frame.isSettled_ofShape _ _ _
  have hlowered : (lowerBlock cx (.ofShape table f.name sig.returns) f.body).Settles true _ []
      Block.nodes := lowerBlock_settles hc.carriesTo hframe f.body hbody
  have hrun : ((lowerBlock cx (.ofShape table f.name sig.returns) f.body).runWith
      (.avoiding settings.stem f.names)).Yields fun body => Within target body.nodes :=
    fun hfaults => hlowered.runWith _ fun _ => hfaults
  exact hrun.bind fun body hbody => .pure ⟨body, rfl, hbody⟩

/-- Nodes are carried over in a function whose signature is known, and in a constant without
function literals. -/
theorem lowerItem_yields {table : SignatureTable} {settings : Settings} {item : Item}
    (hc : Carries source target) (htable : table.IsPlain)
    (hitem : item.isWithin source = true)
    (hknown : ∀ f, item = .func f → (table.get? f.key).isSome)
    (hconst : ∀ c, item = .const c → Within (fun node => !node.isFunc) c.value.nodes) :
    (lowerItem table settings item).Yields fun item' =>
      item'.isWithin target = true ∧ Ty.isClause item'.returns? = true := by
  cases item with
  | func f =>
    obtain ⟨hparams, hbody⟩ := Item.isWithin_func.mp hitem
    obtain ⟨sig, hsig⟩ := Option.isSome_iff_exists.mp (hknown f rfl)
    simp only [lowerItem, hsig]
    refine (lowerFunction_yields hc hbody).bind fun f' hf' => ?_
    obtain ⟨body, rfl, hbody⟩ := hf'
    refine .pure ⟨Item.isWithin_func.mpr ⟨hparams, hbody⟩, ?_⟩
    exact ReturnShape.isClause_clause (htable f.key sig hsig)
  | const c =>
    obtain ⟨hty, hvalue⟩ := Item.isWithin_const.mp hitem
    -- A `try` has nothing to return from in a constant.
    by_cases hattempt : c.value.containsAttempt = true
    · simp only [lowerItem, hattempt, if_true]
      exact Noted.yields_report_bind _
    · simp only [lowerItem, hattempt]
      refine .pure ⟨Item.isWithin_const.mpr ⟨hty, ?_⟩, rfl⟩
      intro node hnode
      obtain ⟨x, rfl, hx, hfunc⟩ :=
        Expr.exists_of_mem_nodes (hconst c rfl) (Bool.eq_false_iff.mpr hattempt) hnode
      refine hc.kept ?_ (hvalue _ hnode)
      cases x with
      | attempt operand span => cases hx
      | func params returns body span => cases hfunc
      | _ => rfl
  | struct decl => exact .pure ⟨hitem, rfl⟩
  | enum decl => exact .pure ⟨hitem, rfl⟩
  | support stem => exact .pure ⟨hitem, rfl⟩

end Propagation

/-- The pass carries properties of nodes over to the lowered unit. -/
theorem propagateErrors_carries {source target : Node → Bool}
    (hc : Propagation.Carries source target) {table : SignatureTable} (settings : Settings)
    (htable : table.IsPlain) {program : Program}
    (hsource : ∀ item ∈ program.items, item.isWithin source = true)
    (hknown : ∀ f, .func f ∈ program.items → (table.get? f.key).isSome)
    (hconst : ∀ c, .const c ∈ program.items →
      Within (fun node => !node.isFunc) c.value.nodes) :
    (propagateErrors table settings program).Yields fun program' => ∀ item ∈ program'.items,
      item.isWithin target = true ∧ Ty.isClause item.returns? = true := by
  have hitems : (program.items.mapM (Propagation.lowerItem table settings)).Yields fun items =>
      ∀ item ∈ items, item.isWithin target = true ∧ Ty.isClause item.returns? = true := by
    refine Noted.yields_mapM fun item hitem => ?_
    refine Propagation.lowerItem_yields hc htable (hsource item hitem) ?_ ?_
    · rintro f rfl
      exact hknown f hitem
    · rintro c rfl
      exact hconst c hitem
  exact hitems.bind fun _ hitems => .pure hitems

end Desugar
