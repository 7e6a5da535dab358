import Desugar.Proofs.Propagation.Parts

/-!
# Error propagation preserves behaviour

The functions that lower the code of a function are followed case by case, with one rule of
simulation for each form. A function that is lowered without a fault then does what it did before:
it acts on the world in the same order with the same operands, and returns the same values.

- `lowerExpr_sim` and the theorems around it are the induction over the syntax.
- `run_lowerFunction` is the result for functions. It asks that the targets of assignments are
  evaluated in order, and that neither a made-up name nor one that the function binds hides `new` or
  a function that makes errors.
- `run_lowerFunction_ne` shows that none of this can be left out.
-/

namespace Desugar.Propagation

variable {V : Type} {w : World V} {visible : List String} {frame : Frame} {s s₁ : NameSupply}

mutual
/-- Lowered code does what the source does, by recursion on the tree, with one case for each form.
-/
theorem lowerExpr_sim : ∀ (e : Expr) {frame : Frame} {s : NameSupply}, Given w visible frame s →
    (∀ node ∈ e.nodes, Suits w visible node) →
    (lowerExpr w.context frame e s).notes.faults = [] → ExprSim w visible frame e s
  | .ident name span, frame, s, g, he, hf => by
    have hname : name ∈ visible :=
      (he _ List.mem_cons_self).names _ rfl name List.mem_cons_self
    refine .of_sim rfl (.plain (.refl s) fun halike => ?_) nofun
    simp only [lowerExpr, Pass.value_pure, World.values, World.read, halike.get? hname]
  | .lit _ _, _, s, _, _, _ => .of_sim rfl (.plain (.refl s) fun _ => rfl) fun _ => .inl rfl
  | .ofType _ _, _, s, _, _, _ => .of_sim rfl (.plain (.refl s) fun _ => rfl) fun _ => .inl rfl
  | .attempt operand span, frame, s, g, he, hf => by
    have ho := (List.forall_mem_cons.mp he).2
    obtain ⟨tys, hzeros⟩ := g.zeros
    obtain ⟨x, hvalue, ⟨hx, -⟩, hsim⟩ := attemptValue_sim g.ready hzeros hf
      fun hf' => (lowerExpr_sim operand g ho hf').sim
    refine .of_sim rfl ?_ fun _ => .inr ⟨x, hvalue, hx⟩
    rw [lowerExpr, hvalue]
    exact hsim
  | .binary op left right span, frame, s, g, he, hf => by
    obtain ⟨hl, hr⟩ := List.forall_mem_append.mp (List.forall_mem_cons.mp he).2
    rw [lowerExpr] at hf
    by_cases hguard : op.isShortCircuit && right.containsAttempt
    · rw [if_pos hguard] at hf
      obtain ⟨hfl, hf⟩ := faults_of_bind hf
      obtain ⟨-, hf⟩ := faults_of_bind hf
      obtain ⟨-, hf⟩ := faults_of_bind hf
      obtain ⟨hfr, -⟩ := faults_of_bind hf
      obtain ⟨hop, -⟩ := Bool.and_eq_true_iff.mp hguard
      have hleft := (lowerExpr_sim left g hl hfl).sim
      have hname := freshNames_fresh (g.ready.advance hleft.advances) "Cond" (by decide)
      have hadvances := hleft.advances.trans hname.advances
      have hright := (lowerExpr_sim right (g.advance hadvances) hr hfr).sim
      have hsim := (hleft.map w.first).guard hop hname.advances (fresh_ne_blank _)
        (hname.not_avoided _ List.mem_cons_self) (hname.mem_used _ List.mem_cons_self)
        (hright.map w.first) (holds_guardTest hop _)
      refine .of_sim rfl ?_ fun _ => .inr ?_
      · rw [lowerExpr, if_pos hguard]
        refine hsim.of_code ?_
        cases op with
        | and => simp [guardTest]
        | or => simp [guardTest]
        | _ => cases hop
      · rw [lowerExpr, if_pos hguard]
        exact ⟨_, rfl, fun hv => hname.not_avoided _ List.mem_cons_self (.inr hv)⟩
    · rw [if_neg hguard] at hf
      obtain ⟨hfl, hf⟩ := faults_of_bind hf
      obtain ⟨-, hf⟩ := faults_of_bind hf
      obtain ⟨hfr, -⟩ := faults_of_bind hf
      have hleft := (lowerExpr_sim left g hl hfl).sim
      have hright := (lowerExpr_sim right
        (g.advance (hleft.spillBefore right.containsAttempt g.ready).advances) hr hfr).sim
      refine .of_sim rfl ?_ fun _ => .inl (by rw [lowerExpr, if_neg hguard]; rfl)
      rw [lowerExpr, if_neg hguard]
      by_cases hop : op.isShortCircuit
      · have hcontains : right.containsAttempt = false := by simpa [hop] using hguard
        have hnil := lowerExpr_code_eq_nil w.context frame right
          (spillBefore right.containsAttempt (lowerExpr w.context frame left s).value
            (lowerExpr w.context frame left s).supply).supply hcontains
        have hsim := (hleft.spillBefore right.containsAttempt g.ready).bind
          (f := fun ρ a => if w.decides op a then pure [a] else do
            let b ← w.value frame.zeros? ρ right
            pure [w.combine op a b])
          fun a halike => by
            rw [World.value, (hright.of_code hnil.symm).eq_of_no_code halike]
        exact (hsim.weaken hright.advances).of_code (by simp [hnil])
      · have hvalues : ∀ (z : Option (List Expr)) (ρ : Env V) (l r : Expr),
            w.values z ρ (.binary op l r span) = (do
              let a ← w.value z ρ l
              let b ← w.value z ρ r
              pure [w.combine op a b]) := by
          intro z ρ l r
          have hdecides : ∀ a, w.decides op a = false := by
            intro a
            cases op <;> first | rfl | exact absurd rfl hop
          simp [World.values, hdecides, World.value]
        have hsim := hleft.operand g.ready (hright.map w.first)
          (lowerExpr_code_eq_nil _ _ _ _) fun a b => pure [w.combine op a b]
        exact hsim.congr (fun ρ => hvalues _ _ _ _) (fun ρ => hvalues _ _ _ _) (by simp)
  | .call callee args span, frame, s, g, he, hf => by
    obtain ⟨hc, ha⟩ := List.forall_mem_append.mp (List.forall_mem_cons.mp he).2
    rw [lowerExpr] at hf
    obtain ⟨hfc, hf⟩ := faults_of_bind hf
    obtain ⟨-, hf⟩ := faults_of_bind hf
    obtain ⟨hfa, -⟩ := faults_of_bind hf
    have hcallee := lowerExpr_sim callee g hc hfc
    have hargs := (lowerOrdered_sim args (g.advance (hcallee.sim.spillBefore
      (args.any Expr.containsAttempt) g.ready).advances) ha).ordered hfa
    refine ⟨?_, fun _ => .inl rfl, fun action => start_sim action g hcallee hargs⟩
    cases halloc : allocated? callee args with
    | some ty =>
      obtain ⟨span₁, span₂, rfl, rfl⟩ := allocated?_eq_some halloc
      have hnew : "new" ∈ visible :=
        (hc _ List.mem_cons_self).names _ rfl "new" List.mem_cons_self
      refine .plain (.refl s) fun {ρ ρ'} halike => ?_
      show w.values _ ρ (.call (.ident "new" span₁) [.ofType ty span₂] span) =
        w.values none ρ' (.call (.ident "new" span₁) [.ofType ty span₂] span)
      simp only [World.values, World.valuesList, World.read, halike.get? hnew]
    | none =>
      exact (start_sim .call g hcallee hargs).congr (fun ρ => w.values_call _ ρ _ halloc)
        (fun ρ => w.values_call _ ρ _ (allocated?_lower halloc _ _ _)) rfl
  | .unary op operand span, frame, s, g, he, hf => by
    have ho := (List.forall_mem_cons.mp he).2
    rw [lowerExpr] at hf
    obtain ⟨hfo, -⟩ := faults_of_bind hf
    have hoperand := (lowerExpr_sim operand g ho hfo).sim.map w.first
    refine .of_sim rfl ?_ fun h => .inl ?_
    · have hsim := hoperand.bind (f := fun _ a => if op = .receive then w.act (.receive a)
        else pure [w.unary op a]) fun _ _ => rfl
      exact hsim.of_code (by simp [lowerExpr])
    · cases op <;> first | rfl | cases h
  | .selector base field span, frame, s, g, he, hf => by
    have hb := (List.forall_mem_cons.mp he).2
    rw [lowerExpr] at hf
    obtain ⟨hfb, -⟩ := faults_of_bind hf
    have hbase := (lowerExpr_sim base g hb hfb).sim.map w.first
    have hsim := hbase.bind (f := fun _ a => pure [w.field a field]) fun _ _ => rfl
    exact .of_sim rfl (hsim.of_code (by simp [lowerExpr])) nofun
  | .index base index span, frame, s, g, he, hf => by
    obtain ⟨hb, hi⟩ := List.forall_mem_append.mp (List.forall_mem_cons.mp he).2
    rw [lowerExpr] at hf
    obtain ⟨hfb, hf⟩ := faults_of_bind hf
    obtain ⟨-, hf⟩ := faults_of_bind hf
    obtain ⟨hfi, -⟩ := faults_of_bind hf
    have hbase := (lowerExpr_sim base g hb hfb).sim
    have hindex := (lowerExpr_sim index
      (g.advance (hbase.spillBefore index.containsAttempt g.ready).advances) hi hfi).sim
    have hsim := hbase.operand g.ready (hindex.map w.first) (lowerExpr_code_eq_nil _ _ _ _)
      fun a b => pure [w.index a b]
    exact .of_sim rfl (hsim.congr (fun _ => rfl) (fun _ => rfl) (by simp [lowerExpr])) nofun
  | .composite ty elements span, frame, s, g, he, hf => by
    have hes := (List.forall_mem_cons.mp he).2
    rw [lowerExpr] at hf
    obtain ⟨hfe, -⟩ := faults_of_bind hf
    have hsim := (lowerElements_sim elements g hes hfe).bind
      (f := fun _ es => pure [w.composite ty es]) fun _ _ => rfl
    exact .of_sim rfl (hsim.of_code (by simp [lowerExpr])) fun _ => .inl rfl
  | .template segments span, frame, s, g, he, hf => by
    have hsegments := (List.forall_mem_cons.mp he).2
    rw [lowerExpr] at hf
    obtain ⟨hfs, -⟩ := faults_of_bind hf
    have hsim := (lowerSegments_sim segments g hsegments hfs).bind
      (f := fun _ pieces => pure [w.template pieces]) fun _ _ => rfl
    exact .of_sim rfl (hsim.of_code (by simp [lowerExpr])) fun _ => .inl rfl
  | .func params returns body span, frame, s, g, he, hf => by
    have hb := (List.forall_mem_cons.mp he).2
    rw [lowerExpr] at hf
    obtain ⟨hfs, hf⟩ := faults_of_bind hf
    obtain ⟨shape, hshape, hliteral⟩ := literalShape_eq hfs
    rw [hliteral] at hf
    obtain ⟨hfb, -⟩ := faults_of_bind hf
    have g' : Given w visible (.ofShape w.context.table frame.literalName shape) s :=
      ⟨g.ready, ⟨shape.values, rfl⟩⟩
    have hbody := lowerBlock_sim body g' hb hfb
    refine .of_sim rfl ?_ fun _ => .inl rfl
    rw [lowerExpr, hliteral, pure_bind]
    refine Sim.of_code (.plain hbody.advances fun halike => ?_) ?_
    · show pure [w.closure params _] = pure [w.closure params _]
      congr 3
      funext args
      rw [zeros?_eq hshape frame.literalName, zeros?_clause hshape]
      have hparams := (he _ List.mem_cons_self).bound
      exact (hbody.agree (alike_declareAll halike hparams _)).bind_eq fun _ _ _ => rfl
    · simp [lowerBlock_code]

theorem lowerOrdered_sim : ∀ (es : List Expr) {frame : Frame} {s : NameSupply},
    Given w visible frame s → (∀ node ∈ Expr.nodesList es, Suits w visible node) →
      ValuesSim w visible frame es s
  | [], _, s, _, _ =>
    ⟨fun _ => ⟨.plain (.refl s) fun _ => rfl, .plain (.refl s) fun _ => rfl⟩, nofun⟩
  | e :: rest, frame, s, g, h => by
    obtain ⟨he, hr⟩ := List.forall_mem_append.mp h
    refine ⟨fun hf => ?_, fun {operand span} heq hfo => ?_⟩
    · rw [lowerOrdered] at hf
      obtain ⟨hfe, hf⟩ := faults_of_bind hf
      obtain ⟨-, hf⟩ := faults_of_bind hf
      obtain ⟨hfr, -⟩ := faults_of_bind hf
      have hsim := (lowerExpr_sim e g he hfe).sim
      have hrest := (lowerOrdered_sim rest (g.advance (hsim.spillBefore
        (rest.any Expr.containsAttempt) g.ready).advances) hr).ordered hfr
      have hfirsts : Sim w visible s (lowerOrdered w.context frame (e :: rest) s).supply
          (lowerOrdered w.context frame (e :: rest) s).code
          (fun ρ => w.firsts frame.zeros? ρ (e :: rest))
          fun ρ => w.firsts none ρ (lowerOrdered w.context frame (e :: rest) s).value :=
        (hsim.operand g.ready hrest.firsts (lowerOrdered_code_eq_nil _ _ _ _)
          fun v vs => pure (v :: vs)).congr (fun ρ => w.firsts_cons _ _ _ _)
          (fun ρ => w.firsts_cons _ _ _ _) (by simp [lowerOrdered])
      refine ⟨hfirsts, ?_⟩
      cases rest with
      | nil =>
        exact hsim.congr (fun ρ => w.operands_singleton _ _ _)
          (fun ρ => w.operands_singleton _ _ _) (by simp [lowerOrdered])
      | cons e₂ rest =>
        exact hfirsts.congr (fun ρ => w.operands_eq_firsts _ _ (by simp))
          (fun ρ => w.operands_eq_firsts _ _ (by simp [length_lowerOrdered])) rfl
    · cases e with
      | attempt operand' span' =>
        obtain rfl : operand' = operand := by cases heq; rfl
        exact lowerExpr_sim operand' g (List.forall_mem_cons.mp he).2 hfo
      | _ => cases heq

theorem lowerElements_sim : ∀ (elements : List Element) {frame : Frame} {s : NameSupply},
    Given w visible frame s → (∀ node ∈ Element.nodesList elements, Suits w visible node) →
      (lowerElements w.context frame elements s).notes.faults = [] →
      Sim w visible s (lowerElements w.context frame elements s).supply
        (lowerElements w.context frame elements s).code
        (fun ρ => w.elements frame.zeros? ρ elements)
        fun ρ => w.elements none ρ (lowerElements w.context frame elements s).value
  | [], _, s, _, _, _ => .plain (.refl s) fun _ => rfl
  | ⟨none, value⟩ :: rest, frame, s, g, h, hf => by
    obtain ⟨h, hr⟩ := List.forall_mem_append.mp h
    obtain ⟨-, hv⟩ := List.forall_mem_append.mp h
    rw [lowerElements] at hf
    obtain ⟨hfv, hf⟩ := faults_of_bind hf
    obtain ⟨-, hf⟩ := faults_of_bind hf
    obtain ⟨hfr, -⟩ := faults_of_bind hf
    have hvalue := (lowerExpr_sim value g hv hfv).sim
    have hrest := lowerElements_sim rest (g.advance (hvalue.spillBefore
      (rest.any Element.containsAttempt) g.ready).advances) hr hfr
    have hsim := hvalue.operand g.ready hrest (lowerElements_code_eq_nil _ _ _ _)
      fun v es => pure ((none, v) :: es)
    exact hsim.congr (fun _ => rfl) (fun _ => rfl) (by simp [lowerElements])
  | ⟨some key, value⟩ :: rest, frame, s, g, h, hf => by
    obtain ⟨h, hr⟩ := List.forall_mem_append.mp h
    obtain ⟨hk, hv⟩ := List.forall_mem_append.mp h
    rw [lowerElements] at hf
    obtain ⟨hfk, hf⟩ := faults_of_bind hf
    obtain ⟨-, hf⟩ := faults_of_bind hf
    obtain ⟨hfv, hf⟩ := faults_of_bind hf
    obtain ⟨-, hf⟩ := faults_of_bind hf
    obtain ⟨hfr, -⟩ := faults_of_bind hf
    have hkey := (lowerExpr_sim key g hk hfk).sim
    have g₁ := g.advance (hkey.spillBefore
      (value.containsAttempt || rest.any Element.containsAttempt) g.ready).advances
    have hvalue := (lowerExpr_sim value g₁ hv hfv).sim
    have hrest := lowerElements_sim rest (g₁.advance (hvalue.spillBefore
      (rest.any Element.containsAttempt) g₁.ready).advances) hr hfr
    have hpair := hvalue.operand g₁.ready hrest (lowerElements_code_eq_nil _ _ _ _)
      fun v es => pure (v, es)
    have hsim := hkey.operand g.ready hpair (fun hlater => ?_)
      fun k pair => pure ((some k, pair.1) :: pair.2)
    · exact hsim.congr (fun ρ => by simp [World.elements])
        (fun ρ => by simp [lowerElements, World.elements, World.value]) (by simp [lowerElements])
    · obtain ⟨hnv, hnr⟩ := Bool.or_eq_false_iff.mp hlater
      simp [lowerExpr_code_eq_nil _ _ _ _ hnv, lowerElements_code_eq_nil _ _ _ _ hnr, hnr]

theorem lowerSegments_sim : ∀ (segments : List Segment) {frame : Frame} {s : NameSupply},
    Given w visible frame s → (∀ node ∈ Segment.nodesList segments, Suits w visible node) →
      (lowerSegments w.context frame segments s).notes.faults = [] →
      Sim w visible s (lowerSegments w.context frame segments s).supply
        (lowerSegments w.context frame segments s).code
        (fun ρ => w.pieces frame.zeros? ρ segments)
        fun ρ => w.pieces none ρ (lowerSegments w.context frame segments s).value
  | [], _, s, _, _, _ => .plain (.refl s) fun _ => rfl
  | .text text :: rest, frame, s, g, h, hf => by
    rw [lowerSegments] at hf
    obtain ⟨hfr, -⟩ := faults_of_bind hf
    have hrest := lowerSegments_sim rest g h hfr
    exact (hrest.map (.text text :: ·)).congr (fun ρ => by simp [World.pieces])
      (fun ρ => by simp [lowerSegments, World.pieces]) (by simp [lowerSegments])
  | .embed value verb span :: rest, frame, s, g, h, hf => by
    obtain ⟨hv, hr⟩ := List.forall_mem_append.mp h
    rw [lowerSegments] at hf
    obtain ⟨hfv, hf⟩ := faults_of_bind hf
    obtain ⟨-, hf⟩ := faults_of_bind hf
    obtain ⟨hfr, -⟩ := faults_of_bind hf
    have hvalue := (lowerExpr_sim value g hv hfv).sim
    have hrest := lowerSegments_sim rest (g.advance (hvalue.spillBefore
      (rest.any Segment.containsAttempt) g.ready).advances) hr hfr
    have hsim := hvalue.operand g.ready hrest (lowerSegments_code_eq_nil _ _ _ _)
      fun v pieces => pure (.value v verb :: pieces)
    exact hsim.congr (fun _ => rfl) (fun _ => rfl) (by simp [lowerSegments])

theorem lowerTargets_sim : ∀ (es : List Expr) {frame : Frame} {s : NameSupply} {spilling : Bool},
    Given w visible frame s → (∀ node ∈ Expr.nodesList es, Suits w visible node) →
      (lowerTargets w.context frame spilling es s).notes.faults = [] →
      targetsInOrder spilling es = true → TargetsSim w visible frame spilling es s
  | [], _, s, _, _, _, _, _ =>
    ⟨.plain (.refl s) fun _ => by simp [World.places, lowerTargets], fun _ _ _ h => h⟩
  | e :: rest, frame, s, spilling, g, h, hf, horder => by
    obtain ⟨he, hr⟩ := List.forall_mem_append.mp h
    have hrestOrder := (Bool.and_eq_true_iff.mp horder).2
    rw [lowerTargets_cons] at hf
    obtain ⟨hft, hf⟩ := faults_of_bind hf
    obtain ⟨hfr, -⟩ := faults_of_bind hf
    obtain ⟨hfe, -⟩ := faults_of_bind hft
    have htarget : TargetSim w visible frame spilling e s := by
      by_cases hplace : e.isPlace
      · cases e with
        | ident x span =>
          exact targetSim_ident span spilling
            ((he _ List.mem_cons_self).names _ rfl x List.mem_cons_self)
        | index base index span =>
          obtain ⟨hb, hi⟩ := List.forall_mem_append.mp (List.forall_mem_cons.mp he).2
          rw [lowerExpr] at hfe
          obtain ⟨hfb, hfe⟩ := faults_of_bind hfe
          obtain ⟨-, hfe⟩ := faults_of_bind hfe
          obtain ⟨hfi, -⟩ := faults_of_bind hfe
          have hbase := lowerExpr_sim base g hb hfb
          have hindex := lowerExpr_sim index
            (g.advance (hbase.sim.spillBefore index.containsAttempt g.ready).advances) hi hfi
          exact targetSim_index span spilling g hbase hindex
        | selector base field span =>
          rw [lowerExpr] at hfe
          obtain ⟨hfb, -⟩ := faults_of_bind hfe
          have hbase := lowerExpr_sim base g (List.forall_mem_cons.mp he).2 hfb
          exact targetSim_selector field span spilling g hbase
        | unary op operand span =>
          cases op with
          | deref =>
            rw [lowerExpr] at hfe
            obtain ⟨hfo, -⟩ := faults_of_bind hfe
            have hoperand := lowerExpr_sim operand g (List.forall_mem_cons.mp he).2 hfo
            exact targetSim_deref span spilling g hoperand
          | _ => cases hplace
        | _ => cases hplace
      · exact targetSim_other spilling (lowerExpr_sim e g he hfe) (by simpa using hplace)
    exact targetsSim_cons htarget
      (lowerTargets_sim rest (g.advance htarget.sim.advances) hr hfr hrestOrder) horder

theorem lowerBlock_sim : ∀ (block : Block) {frame : Frame} {s : NameSupply},
    Given w visible frame s → (∀ node ∈ block.nodes, Suits w visible node) →
      (lowerBlock w.context frame block s).notes.faults = [] →
      Runs w visible s (lowerBlock w.context frame block s).supply
        (fun ρ => w.block frame.zeros? ρ block)
        fun ρ => w.block none ρ (lowerBlock w.context frame block s).value
  | ⟨stmts, span⟩, frame, s, g, h, hf => by
    obtain ⟨hfs, -⟩ := faults_of_bind hf
    have hstmts := lowerStmts_sim stmts g h hfs
    exact ⟨hstmts.advances, fun halike => (hstmts.agree halike).restore halike⟩

theorem lowerStmts_sim : ∀ (stmts : List Stmt) {frame : Frame} {s : NameSupply},
    Given w visible frame s → (∀ node ∈ Stmt.nodesList stmts, Suits w visible node) →
      (lowerStmts w.context frame stmts s).notes.faults = [] →
      Runs w visible s (lowerStmts w.context frame stmts s).supply
        (fun ρ => w.stmts frame.zeros? ρ stmts)
        fun ρ => w.stmts none ρ (lowerStmts w.context frame stmts s).code
  | [], _, s, _, _, _ => ⟨.refl s, fun {ρ ρ'} halike => .pure halike (.refl ρ) (.refl ρ')⟩
  | stmt :: rest, frame, s, g, h, hf => by
    obtain ⟨hs, hr⟩ := List.forall_mem_append.mp h
    obtain ⟨hfs, hfr⟩ := faults_of_bind hf
    have hstmt := lowerStmt_sim stmt g hs hfs
    have hrest := lowerStmts_sim rest (g.advance hstmt.advances) hr hfr
    refine ⟨hstmt.advances.trans hrest.advances, fun {ρ ρ'} halike => ?_⟩
    rw [lowerStmts, Pass.code_bind, World.stmts_append]
    exact (hstmt.agree halike).bind fun halike₁ _ _ => hrest.agree halike₁

theorem lowerStmt_sim : ∀ (stmt : Stmt) {frame : Frame} {s : NameSupply},
    Given w visible frame s → (∀ node ∈ stmt.nodes, Suits w visible node) →
      (lowerStmt w.context frame stmt s).notes.faults = [] →
      Runs w visible s (lowerStmt w.context frame stmt s).supply
        (fun ρ => w.stmt frame.zeros? ρ stmt)
        fun ρ => w.stmts none ρ (lowerStmt w.context frame stmt s).code
  | .expr value, frame, s, g, h, hf => by
    have hv := (List.forall_mem_cons.mp h).2
    by_cases hattempt : value.isAttempt
    · cases value with
      | attempt operand span =>
        rw [lowerStmt] at hf ⊢
        obtain ⟨hfh, -⟩ := faults_of_bind hf
        obtain ⟨tys, hzeros⟩ := g.zeros
        have hsim := hoist_discard g.ready hzeros hfh fun hf' =>
          (lowerExpr_sim operand g (List.forall_mem_cons.mp hv).2 hf').sim
        refine ⟨hsim.advances, fun {ρ ρ'} halike => ?_⟩
        have hagree := hsim.agree (f := fun _ => pure ρ) (g := pure) halike fun {later} halike₁ =>
          .pure halike₁ (.refl ρ) (.refl later)
        simpa [World.stmt] using hagree
      | _ => cases hattempt
    · rw [lowerStmt_expr _ _ (by simpa using hattempt)] at hf ⊢
      obtain ⟨hsupply, hcode⟩ := checkDiscarded_eq w.context value s
      obtain ⟨-, hf⟩ := faults_of_bind hf
      rw [hsupply] at hf
      obtain ⟨hfv, -⟩ := faults_of_bind hf
      have hvalue := (lowerExpr_sim value g hv hfv).sim
      simp only [Pass.supply_bind, Pass.code_bind, Pass.supply_emit, Pass.code_emit, hsupply, hcode,
        List.nil_append]
      exact hvalue.runs fun {ρ ρ'} halike => .after _ fun _ => .pure halike (.refl ρ) (.refl ρ')
  | .assign targets op values span, frame, s, g, h, hf => by
    obtain ⟨hnode, h⟩ := List.forall_mem_cons.mp h
    obtain ⟨ht, hv⟩ := List.forall_mem_append.mp h
    rw [lowerStmt] at hf
    obtain ⟨hft, hf⟩ := faults_of_bind hf
    obtain ⟨hfv, -⟩ := faults_of_bind hf
    have htargets := lowerTargets_sim targets g ht hft hnode.inOrder
    have g₁ := g.advance htargets.sim.advances
    have hvalues := lowerOrdered_sim values g₁ hv
    obtain ⟨hassigned, -⟩ := assigned_sim g₁ hvalues rfl hfv
    have hsim := htargets.sim.siblings hassigned (places_or_assigned hnode.inOrder _ s _)
      fun ps vs => pure (ps, vs)
    refine (hsim.assign span fun hop x hx span' hident => ?_).congr (fun _ => rfl) fun ρ => by
      simp [lowerStmt]
    subst hop
    exact hnode.bound x (List.mem_filterMap.mpr ⟨_, htargets.ident x hx span' hident, rfl⟩)
  | .var names ty values span, frame, s, g, h, hf => by
    obtain ⟨hnode, hv⟩ := List.forall_mem_cons.mp h
    rw [lowerStmt] at hf
    obtain ⟨hfv, -⟩ := faults_of_bind hf
    obtain ⟨hassigned, hempty⟩ := assigned_sim g (lowerOrdered_sim values g hv) rfl hfv
    refine hassigned.runs (f := fun ρ results => pure (w.declareAll ρ (names.map (·.name))
      (if values.isEmpty then names.map fun _ => w.unset ty else results))) fun halike => ?_
    simp only [World.stmt, hempty]
    exact .after _ fun results => .declareAll halike hnode.bound _
  | .ret values span, frame, s, g, h, hf => by
    have hv := (List.forall_mem_cons.mp h).2
    have hvalues := lowerOrdered_sim values g hv
    rw [lowerStmt] at hf ⊢
    cases hframe : frame.isResult with
    | true =>
      simp only [hframe, if_true] at hf ⊢
      obtain ⟨hfr, -⟩ := faults_of_bind hf
      exact (returned_sim g hframe hvalues rfl hfr).ret span
    | false =>
      simp only [hframe, Bool.false_eq_true, if_false] at hf ⊢
      obtain ⟨hfo, -⟩ := faults_of_bind hf
      rw [Frame.zeros?, hframe]
      have hordered := (hvalues.ordered hfo).operands
      rw [Frame.zeros?, hframe] at hordered
      exact hordered.ret span
  | .throw value span, frame, s, g, h, hf => by
    have hv := (List.forall_mem_cons.mp h).2
    rw [lowerStmt] at hf ⊢
    cases hframe : frame.isResult with
    | false => simp [hframe] at hf
    | true =>
      simp only [hframe, if_true] at hf ⊢
      obtain ⟨hfv, hf⟩ := faults_of_bind hf
      obtain ⟨hfe, -⟩ := faults_of_bind hf
      have herror : ErrorSim w visible frame value s := by
        by_cases htext : isErrorText value
        · cases value with
          | lit literal =>
            cases literal with
            | string text => exact errorSim_string text _
            | _ => cases htext
          | template segments =>
            obtain ⟨hfs, -⟩ := faults_of_bind hfv
            have hsegments := lowerSegments_sim segments g (List.forall_mem_cons.mp hv).2 hfs
            exact errorSim_template hsegments hfe
          | _ => cases htext
        · exact errorSim_other (by simpa using htext) (lowerExpr_sim value g hv hfv)
      obtain ⟨tys, hzeros⟩ := g.zeros
      obtain ⟨hsupply, hcode⟩ := errorValue_step w.context.settings
        (lowerExpr w.context frame value s).value (lowerExpr w.context frame value s).supply
      rw [ErrorSim, Frame.zeros?, if_pos hframe, hzeros] at herror
      rw [Frame.zeros?, if_pos hframe, hzeros]
      simp only [Pass.supply_bind, Pass.code_bind, Pass.supply_emit, Pass.code_emit, hsupply, hcode,
        List.nil_append, Frame.earlyReturn, hzeros]
      exact herror.throw span
  | .cond branch, frame, s, g, h, hf => by
    have hb := (List.forall_mem_cons.mp h).2
    obtain ⟨hfb, -⟩ := faults_of_bind hf
    have hbranch := lowerIf_sim branch g hb hfb
    refine ⟨hbranch.advances, fun {ρ ρ'} halike => ?_⟩
    rw [lowerStmt, Pass.code_bind, Pass.code_emit, World.stmts_append]
    simpa [World.stmt] using hbranch.agree halike
  | .loop clause body span, _, _, _, h, _ => by
    cases (List.forall_mem_cons.mp h).1.isLoop
  | .bind names call span, frame, s, g, h, hf => by
    obtain ⟨hnode, hc⟩ := List.forall_mem_cons.mp h
    rw [lowerStmt] at hf ⊢
    obtain ⟨hfl, -⟩ := faults_of_bind hf
    have hlaunched := launched_eq hfl
    rw [hlaunched] at hfl ⊢
    have hcall := (lowerExpr_sim call g hc hfl).started .bind
    refine (hcall.runs (f := fun ρ results => pure (w.declareAll ρ (names.map (·.name)) results))
      fun halike => ?_).congr (fun ρ => w.stmt_bind _ ρ span names call) fun _ => rfl
    rw [w.stmt_bind]
    exact .after _ fun results => .declareAll halike hnode.bound _
  | .go call span, frame, s, g, h, hf =>
    launch_runs .go (.go · span) (fun z ρ e => w.stmt_go z ρ span e) rfl hf fun hf' =>
      lowerExpr_sim call g (List.forall_mem_cons.mp h).2 hf'
  | .defer call span, frame, s, g, h, hf =>
    launch_runs .defer (.defer · span) (fun z ρ e => w.stmt_defer z ρ span e) rfl hf fun hf' =>
      lowerExpr_sim call g (List.forall_mem_cons.mp h).2 hf'
  | .block body, frame, s, g, h, hf => by
    have hb := (List.forall_mem_cons.mp h).2
    obtain ⟨hfb, -⟩ := faults_of_bind hf
    have hbody := lowerBlock_sim body g hb hfb
    refine ⟨hbody.advances, fun {ρ ρ'} halike => ?_⟩
    rw [lowerStmt, Pass.code_bind, Pass.code_emit, lowerBlock_code, List.nil_append,
      World.stmts_singleton]
    exact hbody.agree halike
  | .breakLoop _, _, s, _, _, _ => ⟨.refl s, fun _ => .leave _⟩
  | .continueLoop _, _, s, _, _, _ => ⟨.refl s, fun _ => .leave _⟩

theorem lowerIf_sim : ∀ (branch : If) {frame : Frame} {s : NameSupply},
    Given w visible frame s → (∀ node ∈ branch.nodes, Suits w visible node) →
      (lowerIf w.context frame branch s).notes.faults = [] →
      Runs w visible s (lowerIf w.context frame branch s).supply
        (fun ρ => w.branch frame.zeros? ρ branch)
        fun ρ => w.stmts none ρ (lowerIf w.context frame branch s).code >>= fun later =>
          w.branch none later (lowerIf w.context frame branch s).value
  | ⟨condition, thenBlock, otherwise, span⟩, frame, s, g, h, hf => by
    obtain ⟨h, ho⟩ := List.forall_mem_append.mp h
    obtain ⟨hc, ht⟩ := List.forall_mem_append.mp h
    rw [lowerIf] at hf
    obtain ⟨hfc, hf⟩ := faults_of_bind hf
    obtain ⟨hft, hf⟩ := faults_of_bind hf
    obtain ⟨hfo, -⟩ := faults_of_bind hf
    have hcondition := (lowerExpr_sim condition g hc hfc).sim.map w.first
    have hthen := lowerBlock_sim thenBlock (g.advance hcondition.advances) ht hft
    have hotherwise := lowerElse_sim otherwise
      (g.advance (hcondition.advances.trans hthen.advances)) ho hfo
    refine ⟨hcondition.advances.trans (hthen.advances.trans hotherwise.advances),
      fun {ρ ρ'} halike => ?_⟩
    have hcode : (lowerIf w.context frame ⟨condition, thenBlock, otherwise, span⟩ s).code =
        (lowerExpr w.context frame condition s).code := by
      simp [lowerIf, lowerBlock_code, lowerElse_code]
    rw [hcode]
    refine hcondition.agree halike fun halike₁ => .after _ fun v => ?_
    by_cases hv : w.holds v
    · simp only [hv, if_true]
      exact hthen.agree halike₁
    · simp only [hv, Bool.false_eq_true, if_false]
      exact hotherwise.agree halike₁

theorem lowerElse_sim : ∀ (otherwise : Else) {frame : Frame} {s : NameSupply},
    Given w visible frame s → (∀ node ∈ otherwise.nodes, Suits w visible node) →
      (lowerElse w.context frame otherwise s).notes.faults = [] →
      Runs w visible s (lowerElse w.context frame otherwise s).supply
        (fun ρ => w.otherwise frame.zeros? ρ otherwise)
        fun ρ => w.otherwise none ρ (lowerElse w.context frame otherwise s).value
  | .none, _, s, _, _, _ => ⟨.refl s, fun {ρ ρ'} halike => .pure halike (.refl ρ) (.refl ρ')⟩
  | .block body, frame, s, g, h, hf => by
    obtain ⟨hfb, -⟩ := faults_of_bind hf
    exact lowerBlock_sim body g h hfb
  | .elseIf branch, frame, s, g, h, hf => by
    obtain ⟨hfb, -⟩ := faults_of_bind hf
    have hbranch := lowerIf_sim branch g h hfb
    rw [lowerElse, Pass.supply_bind, Pass.value_bind, Pass.value_collect, Pass.supply_collect]
    dsimp only
    cases hcode : (lowerIf w.context frame branch s).code with
    | nil =>
      rw [hcode] at hbranch
      exact ⟨hbranch.advances, fun halike => (hbranch.agree halike).restore halike⟩
    | cons stmt before =>
      -- The code of the condition runs inside the block that the branch becomes.
      refine ⟨hbranch.advances, fun {ρ ρ'} halike => ?_⟩
      have hrun := (hbranch.agree halike).restore halike
      rw [hcode] at hrun
      show Agree w visible ρ ρ' _ (w.block none ρ' (.inserted (stmt :: before ++ [.cond _])))
      rw [Block.inserted, World.block, World.stmts_append]
      simpa only [World.stmts_singleton, World.stmt, World.otherwise] using hrun
end

/-! ### Functions -/

/-- The names of a function, and those that stand for something global. -/
def visibleNames (settings : Settings) (f : Function) : List String := settings.globals ++ f.names

/-- The supply of a function makes up none of its visible names. -/
theorem ready_avoiding {settings : Settings} {f : Function}
    (hconstructor : ¬ MadeUp settings.stem (Path.head settings.errorConstructor))
    (hformat : ¬ MadeUp settings.stem (Path.head settings.errorFormatFunction)) :
    Ready (visibleNames settings f) (.avoiding settings.stem f.names) := by
  have hglobal : ∀ x ∈ settings.globals, ∀ role ∈ roles, ∀ n,
      x ≠ (NameSupply.avoiding settings.stem f.names).candidate role n := by
    intro x hx role hrole n heq
    rcases List.mem_cons.mp hx with rfl | hx
    · exact NameSupply.candidate_ne _ role n (by decide) heq.symm
    · rcases List.mem_cons.mp hx with rfl | hx
      · exact hconstructor ⟨role, hrole, n, heq⟩
      · exact hformat ⟨role, hrole, n, List.mem_singleton.mp hx ▸ heq⟩
  intro x hx
  rcases List.mem_append.mp hx with hx | hx
  · exact .inr (hglobal x hx)
  · exact .inl hx

/-- A function that is lowered without a fault does what it did before, on every host and from
every environment, provided that it has no loops, that the targets of each assignment are evaluated
in order, and that `new` and the functions that make errors are hidden neither by a made-up name nor
by a variable, be it one to start with or one that the function binds. -/
theorem run_lowerFunction (table : SignatureTable) (settings : Settings) (f : Function)
    (sig : Signature) (hfaults : (lowerFunction table settings f sig).notes.faults = [])
    (hloops : ∀ node ∈ f.body.nodes, node.isLoop = false)
    (horder : ∀ node ∈ f.body.nodes, node.inOrder = true)
    (hconstructor : ¬ MadeUp settings.stem (Path.head settings.errorConstructor))
    (hformat : ¬ MadeUp settings.stem (Path.head settings.errorFormatFunction))
    (hbound : ∀ node ∈ f.body.nodes, ∀ x ∈ node.bound, x ∉ settings.globals)
    {V : Type} (host : Host V) (ρ : Env V) (hfree : ρ.Free settings.globals) :
    let w : World V := { host with context := { Scope.ofFunction table f with settings } }
    w.run none ρ (lowerFunction table settings f sig).value.body =
      w.run (if sig.isResult then some (sig.values.map (Ty.zero table.isStruct)) else none) ρ
        f.body := by
  intro w
  have g : Given w (visibleNames settings f) (.ofShape table f.name sig.returns)
      (.avoiding settings.stem f.names) :=
    ⟨ready_avoiding hconstructor hformat, ⟨sig.values, rfl⟩⟩
  have hsuits : ∀ node ∈ f.body.nodes, Suits w (visibleNames settings f) node := by
    intro node hnode
    refine ⟨?_, hbound node hnode, hloops node hnode, horder node hnode⟩
    rintro e rfl x hx
    exact List.mem_append_right _ (mem_names_of_mem_nodes hnode hx)
  have hclear : Clear w (visibleNames settings f) ρ :=
    ⟨fun x hx => List.mem_append_left _ hx, hfree⟩
  have hbody := lowerBlock_sim f.body g hsuits (List.append_eq_nil_iff.mp hfaults).1
  exact ((hbody.agree hclear.refl).bind_eq fun _ _ _ => rfl).symm

/-! ### Runs on a host of texts -/

/-- A host whose values are texts: a name stands for itself, and no call fails. -/
def textHost : Host String where
  lit _ := ""
  global x := x
  ofType _ := ""
  allocate _ := ""
  binary _ _ _ := ""
  unary op v := if op = .not ∧ v ≠ "true" then "true" else ""
  field v x := v ++ "." ++ x
  index v _ := v
  composite _ _ := ""
  template _ := ""
  unset _ := ""
  closure _ _ := ""
  holds v := v == "true"
  holds_not v := by by_cases h : v = "true" <;> simp [h]
  answer _ := []

/-- A table with one function, `load() Result<int>`. -/
def loadTable : SignatureTable where
  functions := [("load", {
    name := "load"
    params := []
    returns := { declared := [.named "int"], values := [.named "int"], isResult := true } })]

/-- The signature of a function `name() Result<()>`. -/
def failing (name : String) : Signature where
  name
  params := []
  returns := { isResult := true }

/-- The expression `try load()`. -/
def tryLoad : Expr := .attempt (.apply (.name "load") []) .nowhere

/-- A function with a given body. -/
def withBody (name : String) (stmts : List Stmt) : Function where
  name
  receiver := none
  params := []
  returns := none
  body := .inserted stmts

/-- `a[f()] = g() && try load(); if a {} else if try load() { throw "late" }`. -/
def tangled : Function := withBody "tangled" [
  .assign [.index (.name "a") (.apply (.name "f") []) .nowhere] .store
    [.binary .and (.apply (.name "g") []) tryLoad .nowhere] .nowhere,
  .cond ⟨.name "a", .inserted [],
    .elseIf ⟨tryLoad, .inserted [.throw (.string "late") .nowhere], .none, .nowhere⟩, .nowhere⟩]

/-- The function `tangled` and its lowered body leave the same trace. -/
theorem run_lowerFunction_tangled :
    (lowerFunction loadTable {} tangled (failing "tangled")).notes.faults = [] ∧
      (∀ node ∈ tangled.body.nodes, node.isLoop = false) ∧
      (∀ node ∈ tangled.body.nodes, node.inOrder = true) ∧
      ¬ MadeUp "gx" (Path.head "errors.New") ∧ ¬ MadeUp "gx" (Path.head "fmt.Errorf") ∧
      (∀ node ∈ tangled.body.nodes, ∀ x ∈ node.bound, x ∉ ({} : Settings).globals) ∧
      Env.Free ({} : Settings).globals [("a", "box")] ∧
      (let w : World String :=
        { textHost with context := { Scope.ofFunction loadTable tangled with settings := {} } }
      w.run none [("a", "box")]
          (lowerFunction loadTable {} tangled (failing "tangled")).value.body =
        w.run (some []) [("a", "box")] tangled.body) := by
  have hfaults : (lowerFunction loadTable {} tangled (failing "tangled")).notes.faults = [] := rfl
  have hloops : ∀ node ∈ tangled.body.nodes, node.isLoop = false := by decide
  have horder : ∀ node ∈ tangled.body.nodes, node.inOrder = true := by decide
  have hconstructor : ¬ MadeUp "gx" (Path.head "errors.New") := not_madeUp (by decide)
  have hformat : ¬ MadeUp "gx" (Path.head "fmt.Errorf") := not_madeUp (by decide)
  have hbound : ∀ node ∈ tangled.body.nodes, ∀ x ∈ node.bound, x ∉ ({} : Settings).globals := by
    decide
  have hfree : Env.Free ({} : Settings).globals [("a", "box")] := by
    unfold Env.Free
    decide
  exact ⟨hfaults, hloops, horder, hconstructor, hformat, hbound, hfree,
    run_lowerFunction loadTable {} tangled (failing "tangled") hfaults hloops horder hconstructor
      hformat hbound textHost [("a", "box")] hfree⟩

/-- The functions that a run calls, in order. -/
def callsOf (run : Eval String Unit) : List String :=
  (run []).2.filterMap fun
    | .call callee _ => some callee
    | _ => none

/-- `a[f()], b[try load()] = 1, 2`. -/
def crossed : Function := withBody "crossed" [
  .assign [.index (.name "a") (.apply (.name "f") []) .nowhere,
    .index (.name "b") tryLoad .nowhere] .store [.int 1, .int 2] .nowhere]

/-- `try load(); throw "late"`. -/
def shadowed : Function := withBody "shadowed" [
  .expr tryLoad, .throw (.string "late") .nowhere]

/-- Settings under which the name of a captured error starts the path of a function. -/
def clashing : Settings where
  errorConstructor := "gxErr0.New"

/-- `throw err`, in a function that returns a duration or an error. -/
def delayed : Function := withBody "delayed" [.throw (.name "err") .nowhere]

/-- The signature of a function `delayed() Result<Dur>`. -/
def delayedSignature : Signature where
  name := "delayed"
  params := []
  returns := { declared := [.named "Dur"], values := [.named "Dur"], isResult := true }

/-- A `try` in a later target of an assignment runs before an operand of an earlier one. A captured
error hides the function that makes errors, if the path of that function starts with its name. A
parameter hides it too, and a parameter that is called `new` is called for a zero value. -/
theorem run_lowerFunction_ne :
    ((lowerFunction loadTable {} crossed (failing "crossed")).notes.faults = [] ∧
      (∀ node ∈ crossed.body.nodes, node.isLoop = false) ∧
      let w : World String :=
        { textHost with context := { Scope.ofFunction loadTable crossed with settings := {} } }
      w.run none [] (lowerFunction loadTable {} crossed (failing "crossed")).value.body ≠
        w.run (some []) [] crossed.body) ∧
    ((lowerFunction loadTable clashing shadowed (failing "shadowed")).notes.faults = [] ∧
      (∀ node ∈ shadowed.body.nodes, node.isLoop = false) ∧
      let w : World String :=
        { textHost with
          context := { Scope.ofFunction loadTable shadowed with settings := clashing } }
      w.run none [] (lowerFunction loadTable clashing shadowed (failing "shadowed")).value.body ≠
        w.run (some []) [] shadowed.body) ∧
    ((lowerFunction loadTable {} shadowed (failing "shadowed")).notes.faults = [] ∧
      let w : World String :=
        { textHost with context := { Scope.ofFunction loadTable shadowed with settings := {} } }
      w.run none [("errors", "factory")]
          (lowerFunction loadTable {} shadowed (failing "shadowed")).value.body ≠
        w.run (some []) [("errors", "factory")] shadowed.body) ∧
    ((lowerFunction loadTable {} delayed delayedSignature).notes.faults = [] ∧
      let w : World String :=
        { textHost with context := { Scope.ofFunction loadTable delayed with settings := {} } }
      w.run none [("new", "box")]
          (lowerFunction loadTable {} delayed delayedSignature).value.body ≠
        w.run (some [Ty.zero loadTable.isStruct (.named "Dur")]) [("new", "box")]
          delayed.body) := by
  have hne : ∀ {x y : Eval String Unit}, callsOf x ≠ callsOf y → x ≠ y :=
    fun h heq => h (congrArg callsOf heq)
  refine ⟨⟨rfl, by decide, hne ?_⟩, ⟨rfl, by decide, hne ?_⟩, ⟨rfl, hne ?_⟩, rfl, hne ?_⟩
  · -- `load` is called before `f`.
    decide +kernel
  · -- The function that makes an error is looked up in the captured error.
    decide +kernel
  · -- It is looked up in the parameter.
    decide +kernel
  · -- The parameter is called, where the source calls nothing.
    decide +kernel

end Desugar.Propagation
