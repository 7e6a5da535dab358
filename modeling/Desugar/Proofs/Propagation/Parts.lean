import Desugar.Proofs.Propagation.Statements
import Desugar.Proofs.Template.Expand
import Desugar.Proofs.Ty.Lowering

/-!
# The parts of statements

What lowering does with a part of a statement, given that the expressions in it are simulated: the
targets of an assignment, the values that are assigned or returned, and the error that is thrown.

- `Given` is what holds before a part is lowered, `Suits` what each node of it needs.
- `ExprSim` and `ListSim` are the induction hypotheses for expressions and operand lists.
-/

namespace Desugar.Propagation

variable {V : Type} {w : World V} {visible : List String} {frame : Frame} {s s₁ : NameSupply}

/-- What a node needs for lowering to preserve its meaning: the names it mentions are visible, the
names it binds stand for nothing global, it is no loop, and if it is an assignment, then its targets
are evaluated in order. -/
structure Suits (w : World V) (visible : List String) (node : Node) : Prop where
  names : ∀ e, node = .expr e → ∀ x ∈ e.ownNames, x ∈ visible
  bound : ∀ x ∈ node.bound, x ∉ w.context.settings.globals
  isLoop : node.isLoop = false
  inOrder : node.inOrder = true

/-- What is known before a part of a function is lowered. -/
structure Given (w : World V) (visible : List String) (frame : Frame) (s : NameSupply) : Prop where
  ready : Ready visible s
  zeros : ∃ tys : List Ty, frame.zeros = tys.map (Ty.zero w.context.table.isStruct)

/-- What is known before a part is known before the next one. -/
theorem Given.advance (g : Given w visible frame s) (ha : s.Advances s₁) :
    Given w visible frame s₁ :=
  ⟨g.ready.advance ha, g.zeros⟩

/-- The expression is a call. -/
def isCall : Expr → Bool
  | .call _ _ _ => true
  | _ => false

/-- What is no call is not lowered to one. -/
theorem isCall_lowerExpr (cx : Context) {e : Expr} (h : isCall e = false) (s : NameSupply) :
    isCall (lowerExpr cx frame e s).value = false := by
  cases e with
  | call => cases h
  | attempt operand span =>
    rw [lowerExpr]
    rcases attemptValue_value cx frame _ s with hvalue | ⟨x, hvalue, -⟩
    · rw [hvalue]; rfl
    · rw [hvalue]; rfl
  | binary op left right span => rw [lowerExpr]; split <;> rfl
  | _ => rfl

/-- What is no call is evaluated where a call is started. -/
theorem started_eq {e : Expr} (h : isCall e = false) (z : Option (List Expr)) (ρ : Env V)
    (action : V → List V → Action V) : w.started z ρ action e = w.values z ρ e := by
  cases e with
  | call => cases h
  | _ => rfl

/-- The expression is no place in the source: a value can be stored there without effect. -/
def Stray (visible : List String) (e : Expr) : Prop :=
  e.isPlace = false ∨ ∃ x, e = .name x ∧ x ∉ visible

/-- The lowered expression is simulated where it is evaluated and where it is started, and it is a
place only if the expression is. -/
structure ExprSim (w : World V) (visible : List String) (frame : Frame) (e : Expr)
    (s : NameSupply) : Prop where
  sim : Sim w visible s (lowerExpr w.context frame e s).supply
    (lowerExpr w.context frame e s).code (fun ρ => w.values frame.zeros? ρ e)
    fun ρ => w.values none ρ (lowerExpr w.context frame e s).value
  stray : e.isPlace = false → Stray visible (lowerExpr w.context frame e s).value
  started : ∀ action, Sim w visible s (lowerExpr w.context frame e s).supply
    (lowerExpr w.context frame e s).code (fun ρ => w.started frame.zeros? ρ action e)
    fun ρ => w.started none ρ action (lowerExpr w.context frame e s).value

/-- An expression that is no call is simulated where it is started if it is where it is evaluated.
-/
theorem ExprSim.of_sim {e : Expr} (hcall : isCall e = false)
    (h : Sim w visible s (lowerExpr w.context frame e s).supply
      (lowerExpr w.context frame e s).code (fun ρ => w.values frame.zeros? ρ e)
      fun ρ => w.values none ρ (lowerExpr w.context frame e s).value)
    (hstray : e.isPlace = false → Stray visible (lowerExpr w.context frame e s).value) :
    ExprSim w visible frame e s where
  sim := h
  stray := hstray
  started := fun action => h.congr (fun ρ => started_eq hcall _ ρ action)
    (fun ρ => started_eq (isCall_lowerExpr w.context hcall s) _ ρ action) rfl

/-- Lowered sibling operands are simulated. -/
structure ListSim (w : World V) (visible : List String) (frame : Frame) (es : List Expr)
    (s : NameSupply) : Prop where
  firsts : Sim w visible s (lowerOrdered w.context frame es s).supply
    (lowerOrdered w.context frame es s).code (fun ρ => w.firsts frame.zeros? ρ es)
    fun ρ => w.firsts none ρ (lowerOrdered w.context frame es s).value
  operands : Sim w visible s (lowerOrdered w.context frame es s).supply
    (lowerOrdered w.context frame es s).code (fun ρ => w.operands frame.zeros? ρ es)
    fun ρ => w.operands none ρ (lowerOrdered w.context frame es s).value

section Literals

/-- A function literal returns the zero values of its own frame. -/
theorem zeros?_eq {returns : Option Ty} {shape : ReturnShape}
    (h : ReturnShape.ofClause w.context.settings.optionPolicy returns = .ok shape) (name : String) :
    w.zeros? returns = (Frame.ofShape w.context.table name shape).zeros? := by
  rw [World.zeros?, h]
  rfl

/-- A lowered return clause is not a result. -/
theorem zeros?_clause {returns : Option Ty} {shape : ReturnShape}
    (h : ReturnShape.ofClause w.context.settings.optionPolicy returns = .ok shape) :
    w.zeros? shape.clause = none := by
  have hclause := ReturnShape.isResult_clause (ReturnShape.all_isPlain_values h)
  unfold World.zeros?
  split
  · rename_i hshape
    rw [ReturnShape.isResult_ofClause hshape hclause]
    rfl
  · rfl

/-- An accepted function literal has a shape, and finding it does nothing else. -/
theorem literalShape_eq {cx : Context} {returns : Option Ty} {span : Span}
    (hf : (literalShape cx returns span s).notes.faults = []) :
    ∃ shape, ReturnShape.ofClause cx.settings.optionPolicy returns = .ok shape ∧
      literalShape cx returns span = pure shape := by
  unfold literalShape at hf ⊢
  cases hshape : ReturnShape.ofClause cx.settings.optionPolicy returns with
  | ok shape => exact ⟨shape, rfl, rfl⟩
  | error cause => simp [hshape] at hf

end Literals

/-- The test that guards the right operand of `&&` or `||`. -/
def guardTest (op : BinaryOp) (c : String) : Expr :=
  match op with
  | .or => .unary .not (.name c) .nowhere
  | _ => .name c

/-- The guard of a right operand holds if the left one has not decided. -/
theorem holds_guardTest {op : BinaryOp} (hop : op.isShortCircuit) (c : String) (ρ : Env V) :
    ∃ v, w.value none ρ (guardTest op c) = pure v ∧
      w.holds v = !w.decides op (w.read ρ c) := by
  cases op with
  | and => exact ⟨w.read ρ c, rfl, by simp [World.decides]⟩
  | or => exact ⟨w.unary .not (w.read ρ c), rfl, w.holds_not _⟩
  | _ => cases hop

/-! ### Targets of assignments -/

/-- The lowering of one target. -/
def lowerTarget (cx : Context) (frame : Frame) (spilling : Bool) (e : Expr) : Pass Expr := do
  let e ← lowerExpr cx frame e
  if spilling then pin e else pure e

/-- The lowered target is simulated, and it is a visible name only if the target is. -/
structure TargetSim (w : World V) (visible : List String) (frame : Frame) (spilling : Bool)
    (e : Expr) (s : NameSupply) : Prop where
  sim : Sim w visible s (lowerTarget w.context frame spilling e s).supply
    (lowerTarget w.context frame spilling e s).code (fun ρ => w.place frame.zeros? ρ e)
    fun ρ => hide visible <$> w.place none ρ (lowerTarget w.context frame spilling e s).value
  ident : ∀ x ∈ visible, ∀ span, (lowerTarget w.context frame spilling e s).value = .ident x span →
    e = .ident x span

/-- The lowered targets are simulated, and the visible names among them are those of the targets. -/
structure TargetsSim (w : World V) (visible : List String) (frame : Frame) (spilling : Bool)
    (es : List Expr) (s : NameSupply) : Prop where
  sim : Sim w visible s (lowerTargets w.context frame spilling es s).supply
    (lowerTargets w.context frame spilling es s).code (fun ρ => w.places frame.zeros? ρ es)
    fun ρ => (·.map (hide visible)) <$>
      w.places none ρ (lowerTargets w.context frame spilling es s).value
  ident : ∀ x ∈ visible, ∀ span,
    .ident x span ∈ (lowerTargets w.context frame spilling es s).value → .ident x span ∈ es

/-- A pure operand is not spilled. -/
theorem spill_of_isPure {e : Expr} (h : e.isPure = true) : spill e = pure e := if_pos h

theorem pin_of_isPure {e : Expr} (h : e.isPure = true) : pin e = pure e := by
  rw [Expr.isPure_eq] at h
  cases e with
  | index base index =>
    obtain ⟨hb, hi⟩ : base.isPure ∧ index.isPure := by simpa [Expr.parts, Expr.isEffect] using h
    simp [pin, spill_of_isPure, hb, hi]
  | selector base =>
    have hb : base.isPure := by simpa [Expr.parts, Expr.isEffect] using h
    simp [pin, spill_of_isPure, hb]
  | unary op operand =>
    cases op with
    | deref =>
      have ho : operand.isPure := by simpa [Expr.parts, Expr.isEffect] using h
      simp [pin, spill_of_isPure, ho]
    | _ => rfl
  | _ => rfl

/-- A place whose operands are spilled runs nothing any more. -/
theorem isPure_pin {e : Expr} (h : e.isPinned = true) (s : NameSupply) :
    (pin e s).value.isPure = true := by
  cases e with
  | index base index =>
    simp [pin, Expr.isPure_eq (.index ..), Expr.parts, Expr.isEffect, isPure_spill]
  | selector base =>
    simp [pin, Expr.isPure_eq (.selector ..), Expr.parts, Expr.isEffect, isPure_spill]
  | unary op operand =>
    cases op with
    | deref => simp [pin, Expr.isPure_eq (.unary ..), Expr.parts, Expr.isEffect, isPure_spill]
    | _ => cases h
  | _ => cases h

/-- A place whose operands can be spilled is lowered to one. -/
theorem isPinned_lowerExpr (cx : Context) {e : Expr} (h : e.isPinned = true) (s : NameSupply) :
    (lowerExpr cx frame e s).value.isPinned = true := by
  cases e with
  | index | selector => rfl
  | unary op operand =>
    cases op with
    | deref => rfl
    | _ => cases h
  | _ => cases h

/-- The residual of a target runs nothing if nothing is left to run or its operands are
spilled. -/
theorem exists_place_lowerTarget {e : Expr} {spilling : Bool}
    (h : e.leavesEffect = false ∨ (spilling = true ∧ e.isPinned = true)) (s : NameSupply)
    (ρ : Env V) :
    ∃ p, w.place none ρ (lowerTarget w.context frame spilling e s).value = pure p := by
  refine w.exists_place_of_isPure ρ ?_
  rcases h with hleaves | ⟨rfl, hpinned⟩
  · have hpure := isPure_lowerExpr w.context frame e s hleaves
    cases spilling <;> simp [lowerTarget, pin_of_isPure, hpure]
  · exact isPure_pin (isPinned_lowerExpr w.context hpinned s) _

/-- A name is a target that is left as it is. -/
theorem targetSim_ident {x : String} (span : Span) (spilling : Bool) (hx : x ∈ visible) :
    TargetSim w visible frame spilling (.ident x span) s := by
  have hvalue : (lowerTarget w.context frame spilling (.ident x span) s).value = .ident x span := by
    cases spilling <;> rfl
  refine ⟨Sim.of_code (.plain ?_ fun _ => ?_) ?_, fun y _ span' h => hvalue.symm.trans h⟩
  · cases spilling <;> exact .refl s
  · simp [hvalue, World.place, hide, hx]
  · cases spilling <;> rfl

/-- A place with one operand: a field, or what a pointer points to. -/
theorem targetSim_form {part : Expr} (form : Expr → Expr) (mk : V → Place V) (spilling : Bool)
    (hlower : lowerExpr w.context frame (form part) = form <$> lowerExpr w.context frame part)
    (hpin : ∀ e, pin (form e) = form <$> spill e)
    (hplace : ∀ z ρ e, w.place z ρ (form e) = mk <$> w.value z ρ e)
    (hhide : ∀ v, hide visible (mk v) = mk v) (hform : ∀ e x span, form e ≠ .ident x span)
    (g : Given w visible frame s) (hpart : ExprSim w visible frame part s) :
    TargetSim w visible frame spilling (form part) s := by
  cases spilling with
  | false =>
    have htarget : lowerTarget w.context frame false (form part) =
        form <$> lowerExpr w.context frame part := by
      simp [lowerTarget, hlower]
    constructor <;> rw [htarget, Pass.value_map]
    · rw [Pass.supply_map, Pass.code_map]
      exact ((hpart.sim.map w.first).map mk).congr (fun ρ => hplace _ _ _)
        (fun ρ => by simp [hplace, hhide, World.value]) rfl
    · exact fun x _ span h => absurd h (hform _ x span)
  | true =>
    have htarget : lowerTarget w.context frame true (form part) =
        form <$> (lowerExpr w.context frame part >>= spill) := by
      simp [lowerTarget, hlower, hpin]
    have hspill := (hpart.sim.map w.first).spill g.ready
    constructor <;> rw [htarget, Pass.value_map]
    · rw [Pass.supply_map, Pass.code_map]
      exact (hspill.map mk).congr (fun ρ => hplace _ _ _) (fun ρ => by simp [hplace, hhide]) rfl
    · exact fun x _ span h => absurd h (hform _ x span)

/-- A field is simulated as a target if its base is. -/
theorem targetSim_selector {base : Expr} (field : String) (span : Span) (spilling : Bool)
    (g : Given w visible frame s) (hbase : ExprSim w visible frame base s) :
    TargetSim w visible frame spilling (.selector base field span) s :=
  targetSim_form (.selector · field span) (.field · field) spilling rfl (fun _ => rfl)
    (fun _ _ _ => rfl) (fun _ => rfl) (by simp) g hbase

/-- A dereferenced pointer is simulated as a target if the pointer is. -/
theorem targetSim_deref {operand : Expr} (span : Span) (spilling : Bool)
    (g : Given w visible frame s) (hoperand : ExprSim w visible frame operand s) :
    TargetSim w visible frame spilling (.unary .deref operand span) s :=
  targetSim_form (.unary .deref · span) .deref spilling rfl (fun _ => rfl) (fun _ _ _ => rfl)
    (fun _ => rfl) (by simp) g hoperand

/-- The supply after the base of an index expression. -/
def afterBase (cx : Context) (frame : Frame) (base index : Expr) (s : NameSupply) : NameSupply :=
  (spillBefore index.containsAttempt (lowerExpr cx frame base s).value
    (lowerExpr cx frame base s).supply).supply

/-- The operands of an index expression are both in place, and that of the base runs nothing. -/
theorem Sim.indexPlace {s₂ : NameSupply} {code₁ code₂ : List Stmt} {base index b i : Expr}
    {z : Option (List Expr)} (span : Span)
    (hbase : Sim w visible s s₁ code₁ (fun ρ => w.value z ρ base) fun ρ => w.value none ρ b)
    (hb : b.isPure)
    (hindex : Sim w visible s₁ s₂ code₂ (fun ρ => w.value z ρ index) fun ρ => w.value none ρ i) :
    Sim w visible s s₂ (code₁ ++ code₂) (fun ρ => w.place z ρ (.index base index span))
      fun ρ => hide visible <$> w.place none ρ (.index b i span) :=
  (hbase.seq (fun ρ => w.exists_value_of_isPure ρ hb) hindex fun a b => pure (.index a b)).congr
    (fun _ => rfl) (fun _ => by simp [World.place, hide]) rfl

/-- An element is simulated as a target if its base and its index are, in this order. -/
theorem targetSim_index {base index : Expr} (span : Span) (spilling : Bool)
    (g : Given w visible frame s) (hbase : ExprSim w visible frame base s)
    (hindex : ExprSim w visible frame index (afterBase w.context frame base index s)) :
    TargetSim w visible frame spilling (.index base index span) s := by
  refine ⟨?_, fun x _ span' h => by cases spilling <;> cases h⟩
  cases spilling with
  | false =>
    have hsim := hbase.sim.operand g.ready (hindex.sim.map w.first) (lowerExpr_code_eq_nil _ _ _ _)
      fun a b => pure (Place.index a b)
    exact hsim.congr (fun ρ => by simp [World.place, World.value])
      (fun ρ => by simp [lowerTarget, lowerExpr, afterBase, World.place, World.value, hide])
      (by simp [lowerTarget, lowerExpr, afterBase])
  | true =>
    cases hcontains : index.containsAttempt with
    | true =>
      -- The base is spilled already.
      have hpure := isPure_spill (lowerExpr w.context frame base s).value
        (lowerExpr w.context frame base s).supply
      have hbase := hbase.sim.spillBefore true g.ready
      rw [afterBase, hcontains] at hindex
      have hindex := (hindex.sim.map w.first).spill (g.ready.advance hbase.advances)
      have hsim := hbase.indexPlace span hpure hindex
      simpa [lowerTarget, lowerExpr, hcontains, pin, spill_of_isPure, spillBefore, hpure] using hsim
    | false =>
      -- The index needs no code, and both operands are spilled after it.
      rw [afterBase, hcontains] at hindex
      have hnil := lowerExpr_code_eq_nil w.context frame index
        (lowerExpr w.context frame base s).supply hcontains
      have hbase := ((hbase.sim.map w.first).weaken hindex.sim.advances).spill g.ready
      have hindex := (((hindex.sim.map w.first).of_code hnil.symm).still
        (spill (lowerExpr w.context frame base s).value _).supply).spill
          (g.ready.advance hbase.advances)
      have hsim := hbase.indexPlace span (isPure_spill _ _) hindex
      simpa [lowerTarget, lowerExpr, hcontains, pin, hnil] using hsim

/-- What is no place in the source is nowhere in the lowered code, too. -/
theorem Stray.place {e : Expr} (h : Stray visible e) (ρ : Env V) :
    hide visible <$> w.place none ρ e = (fun _ => .nowhere) <$> w.values none ρ e := by
  rcases h with hplace | ⟨x, rfl, hx⟩
  · simp [w.place_of_not_isPlace _ _ hplace, hide]
  · simp [World.place, Expr.name, hide, hx, World.values]

/-- A visible name is no stray. -/
theorem Stray.ne_ident {e : Expr} (h : Stray visible e) {x : String} (hx : x ∈ visible)
    (span : Span) : e ≠ .ident x span := by
  rintro rfl
  rcases h with hplace | ⟨y, heq, hy⟩
  · cases hplace
  · cases heq
    exact hy hx

/-- What is no place is not pinned. -/
theorem Stray.pin_eq {e : Expr} (h : Stray visible e) : pin e = pure e := by
  rcases h with hplace | ⟨x, rfl, -⟩
  · cases e with
    | unary op =>
      cases op with
      | deref => cases hplace
      | _ => rfl
    | index | selector => cases hplace
    | _ => rfl
  · rfl

/-- Any other target is evaluated, and nothing is stored. -/
theorem targetSim_other {e : Expr} (spilling : Bool) (he : ExprSim w visible frame e s)
    (hplace : e.isPlace = false) : TargetSim w visible frame spilling e s := by
  have hstray := he.stray hplace
  have hsim := (he.sim.map fun _ => Place.nowhere).congr
    (fun ρ => w.place_of_not_isPlace _ ρ hplace) hstray.place rfl
  constructor
  · cases spilling <;> simpa [lowerTarget, hstray.pin_eq] using hsim
  · intro x hx span hvalue
    refine absurd ?_ (hstray.ne_ident hx span)
    cases spilling <;> simpa [lowerTarget, hstray.pin_eq] using hvalue

/-- Targets are lowered from left to right. -/
theorem lowerTargets_cons (cx : Context) (frame : Frame) (spilling : Bool) (e : Expr)
    (rest : List Expr) :
    lowerTargets cx frame spilling (e :: rest) = (do
      let e ← lowerTarget cx frame spilling e
      let rest ← lowerTargets cx frame spilling rest
      pure (e :: rest)) := by
  rw [lowerTargets, lowerTarget, bind_assoc]
  cases spilling <;> rfl

/-- The residuals of spilled targets run nothing. -/
theorem exists_places_lowerTargets {es : List Expr} (h : targetsInOrder true es = true)
    (s : NameSupply) (ρ : Env V) :
    ∃ ps, w.places none ρ (lowerTargets w.context frame true es s).value = pure ps := by
  induction es generalizing s with
  | nil => exact ⟨[], rfl⟩
  | cons e rest ih =>
    obtain ⟨he, hrest⟩ : (e.leavesEffect = false ∨ e.isPinned = true) ∧
        targetsInOrder true rest = true := by
      simpa [targetsInOrder] using h
    obtain ⟨p, hp⟩ : ∃ p, w.place none ρ (lowerTarget w.context frame true e s).value = pure p :=
      exists_place_lowerTarget (he.imp_right fun hpinned => ⟨rfl, hpinned⟩) s ρ
    obtain ⟨ps, hps⟩ := ih hrest (lowerTarget w.context frame true e s).supply
    exact ⟨p :: ps, by simp [lowerTargets_cons, w.places_cons, hp, hps]⟩

/-- A target and those after it. -/
theorem targetsSim_cons {e : Expr} {rest : List Expr} {spilling : Bool}
    (he : TargetSim w visible frame spilling e s)
    (hrest : TargetsSim w visible frame spilling rest
      (lowerTarget w.context frame spilling e s).supply)
    (horder : targetsInOrder spilling (e :: rest) = true) :
    TargetsSim w visible frame spilling (e :: rest) s := by
  have hside : (∀ ρ, ∃ p, hide visible <$>
        w.place none ρ (lowerTarget w.context frame spilling e s).value = pure p) ∨
      (lowerTargets w.context frame spilling rest
        (lowerTarget w.context frame spilling e s).supply).code = [] := by
    have hpure : (e.leavesEffect = false ∨ (spilling = true ∧ e.isPinned = true)) ∨
        (spilling = false ∧ rest.any Expr.containsAttempt = false) := by
      grind [targetsInOrder]
    rcases hpure with hpure | ⟨rfl, hnone⟩
    · refine .inl fun ρ => ?_
      obtain ⟨p, hp⟩ := exists_place_lowerTarget hpure s ρ
      exact ⟨hide visible p, by rw [hp, map_pure]⟩
    · exact .inr (lowerTargets_code_eq_nil w.context frame hnone _)
  have hsim := he.sim.siblings hrest.sim hside fun p ps => pure (p :: ps)
  constructor <;> rw [lowerTargets_cons]
  · exact hsim.congr (fun ρ => w.places_cons _ _ _ _) (fun ρ => by simp [w.places_cons]) (by simp)
  · intro x hx span hmem
    rcases List.mem_cons.mp hmem with heq | hmem
    · rw [he.ident x hx span heq.symm]
      exact List.mem_cons_self
    · exact List.mem_cons_of_mem _ (hrest.ident x hx span hmem)

/-! ### Assigned and returned values -/

/-- The induction hypotheses for a list of values. -/
structure ValuesSim (w : World V) (visible : List String) (frame : Frame) (es : List Expr)
    (s : NameSupply) : Prop where
  ordered : (lowerOrdered w.context frame es s).notes.faults = [] → ListSim w visible frame es s
  sole : ∀ {operand : Expr} {span : Span}, es = [.attempt operand span] →
    (lowerExpr w.context frame operand s).notes.faults = [] → ExprSim w visible frame operand s

theorem isSoleAttempt_eq_false {es : List Expr} (h : ∀ operand span, es ≠ [.attempt operand span]) :
    isSoleAttempt es = false := by
  match es with
  | [] => rfl
  | e :: _ :: _ => cases e <;> rfl
  | [e] =>
    cases e with
    | attempt operand span => exact absurd rfl (h operand span)
    | _ => rfl

/-- No operand is lost and none is added. -/
theorem isEmpty_lowerOrdered (cx : Context) (frame : Frame) (es : List Expr) (s : NameSupply) :
    (lowerOrdered cx frame es s).value.isEmpty = es.isEmpty := by
  cases es <;> rfl

/-- If the values of an assignment need code, then its targets run nothing after it. -/
theorem places_or_assigned {targets es : List Expr}
    (horder : targetsInOrder (es.any Expr.containsAttempt) targets = true) (count : Nat)
    (s s₁ : NameSupply) :
    (∀ ρ, ∃ ps, (·.map (hide visible)) <$> w.places none ρ
        (lowerTargets w.context frame (es.any Expr.containsAttempt) targets s).value = pure ps) ∨
      (assigned w.context frame count es (soleAttempt w.context frame es)
        (lowerOrdered w.context frame es) s₁).code = [] := by
  cases hany : es.any Expr.containsAttempt with
  | true =>
    rw [hany] at horder
    refine .inl fun ρ => ?_
    obtain ⟨ps, hps⟩ := exists_places_lowerTargets horder s ρ
    exact ⟨ps.map (hide visible), by rw [hps, map_pure]⟩
  | false => exact .inr (assigned_code_eq_nil w.context frame count hany s₁)

/-- The values that are given to targets. -/
theorem assigned_sim {es : List Expr} {targets : Nat} (g : Given w visible frame s)
    (h : ValuesSim w visible frame es s) {step : Step (List Expr)}
    (hstep : assigned w.context frame targets es (soleAttempt w.context frame es)
      (lowerOrdered w.context frame es) s = step) (hf : step.notes.faults = []) :
    Sim w visible s step.supply step.code (fun ρ => w.operands frame.zeros? ρ es)
      (fun ρ => w.operands none ρ step.value) ∧ step.value.isEmpty = es.isEmpty := by
  subst hstep
  rcases soleAttempt_cases w.context frame es with ⟨operand, span, rfl⟩ | ⟨hnone, -⟩
  · rw [soleAttempt, assigned] at hf ⊢
    by_cases htargets : 1 < targets
    · simp only [if_pos htargets] at hf ⊢
      obtain ⟨tys, hzeros⟩ := g.zeros
      obtain ⟨xs, hvalue, hlength, hsim⟩ := attemptValues_sim g.ready hzeros hf
        fun hf' => (h.sole rfl hf').sim
      refine ⟨hsim.congr (fun ρ => w.operands_singleton _ _ _) (fun ρ => ?_) rfl, ?_⟩
      · rw [hvalue, w.operands_names]
      · cases xs with
        | nil => simp at hlength; omega
        | cons x xs => rw [hvalue]; rfl
    · simp only [if_neg htargets] at hf ⊢
      exact ⟨(h.ordered hf).operands, isEmpty_lowerOrdered _ _ _ _⟩
  · rw [hnone, assigned] at hf ⊢
    obtain ⟨hsupply, hcode⟩ := checkCapture_eq w.context targets es s
    simp only [Pass.notes_bind, Pass.supply_bind, Pass.code_bind, Pass.value_bind, hsupply, hcode,
      List.nil_append] at hf ⊢
    have hordered : (lowerOrdered w.context frame es s).notes.faults = [] := by simp_all
    exact ⟨(h.ordered hordered).operands, isEmpty_lowerOrdered _ _ _ _⟩

/-- A return passes an error on in the semantics if the pass takes it for one that does. -/
theorem passesOn_eq_forwards (frame : Frame) (es : List Expr) :
    w.passesOn frame.zeros.length es = forwards w.context frame es := by
  match es with
  | [] | [_] | _ :: _ :: _ => rfl

/-- The values that a function with a result returns. -/
theorem returned_sim {es : List Expr} {span : Span} (g : Given w visible frame s)
    (hframe : frame.isResult = true) (h : ValuesSim w visible frame es s) {step : Step (List Expr)}
    (hstep : returned w.context frame es span (soleAttempt w.context frame es)
      (lowerOrdered w.context frame es) s = step) (hf : step.notes.faults = []) :
    Sim w visible s step.supply step.code (fun ρ => w.returns frame.zeros? ρ es)
      (fun ρ => w.operands none ρ step.value) := by
  subst hstep
  have hreturns : ∀ ρ, w.returns frame.zeros? ρ es = _ := fun ρ => by
    rw [Frame.zeros?, if_pos hframe, w.returns_some, passesOn_eq_forwards, ← Frame.valueCount]
  have hzeros? : frame.zeros? = some frame.zeros := by rw [Frame.zeros?, if_pos hframe]
  rcases soleAttempt_cases w.context frame es with ⟨operand, span, rfl⟩ | ⟨hnone, hother⟩
  · rw [soleAttempt, returned] at hf ⊢
    obtain ⟨hf, -⟩ := faults_of_bind hf
    obtain ⟨tys, hzeros⟩ := g.zeros
    obtain ⟨xs, hvalue, -, hsim⟩ := attemptValues_sim g.ready hzeros hf
      fun hf' => (h.sole rfl hf').sim
    refine (hsim.map (· ++ [w.nil])).congr (fun ρ => ?_) (fun ρ => ?_) (by simp)
    · rw [hreturns, show isSoleAttempt [.attempt operand span] = true from rfl, if_pos rfl,
        w.operands_singleton, ← hzeros?]
    · simp [hvalue, w.operands_append_nil, w.firsts_names]
  · rw [hnone, returned] at hf ⊢
    simp only [isSoleAttempt_eq_false hother, Bool.false_eq_true, if_false, ← hzeros?] at hreturns
    by_cases hforwards : forwards w.context frame es
    · rw [if_pos hforwards] at hf ⊢
      exact (h.ordered hf).operands.congr (fun ρ => by rw [hreturns, if_pos hforwards])
        (fun _ => rfl) rfl
    · simp only [hforwards, Bool.false_eq_true, if_false] at hreturns hf ⊢
      by_cases hcount : es.length = frame.valueCount
      · rw [if_pos hcount] at hf ⊢
        obtain ⟨hf, -⟩ := faults_of_bind hf
        refine ((h.ordered hf).firsts.map (· ++ [w.nil])).congr
          (fun ρ => ?_) (fun ρ => ?_) (by simp)
        · rw [hreturns, if_pos hcount]
        · simp [w.operands_append_nil]
      · rw [if_neg hcount] at hf ⊢
        by_cases hmore : es.length = frame.valueCount + 1
        · rw [if_pos hmore] at hf ⊢
          exact (h.ordered hf).operands.congr (fun ρ => by rw [hreturns, if_neg hcount])
            (fun _ => rfl) rfl
        · simp [hmore] at hf

/-! ### Thrown errors and started calls -/

/-- Lowering a template does not change its format. -/
theorem format_lowerSegments {cx : Context} {frame : Frame} {segments : List Segment}
    {s : NameSupply} {text : List Char} {args : List Expr}
    (h : Template.format (lowerSegments cx frame segments s).value = .ok (text, args)) :
    ∃ args', Template.format segments = .ok (text, args') := by
  induction segments generalizing s text args with
  | nil => exact ⟨_, h⟩
  | cons segment rest ih =>
    cases segment with
    | text value =>
      obtain ⟨text', hrest, rfl⟩ := Template.format_text_eq_ok.mp h
      obtain ⟨args', hargs'⟩ := ih hrest
      exact ⟨args', Template.format_text_eq_ok.mpr ⟨text', hargs', rfl⟩⟩
    | embed value verb span =>
      obtain ⟨hverb, text', args', hrest, -, rfl⟩ := Template.format_embed_eq_ok.mp h
      obtain ⟨args', hargs'⟩ := ih hrest
      exact ⟨_, Template.format_embed_eq_ok.mpr ⟨hverb, text', args', hargs', rfl, rfl⟩⟩

/-- A template is filled in with the values of its embeds. -/
theorem firsts_format {segments : List Segment} {text : List Char} {args : List Expr}
    (h : Template.format segments = .ok (text, args)) (ρ : Env V) :
    w.firsts none ρ args = (·.filterMap Piece.value?) <$> w.pieces none ρ segments := by
  induction segments generalizing text args with
  | nil => cases h; rfl
  | cons segment rest ih =>
    cases segment with
    | text value =>
      obtain ⟨text', hrest, -⟩ := Template.format_text_eq_ok.mp h
      simp [World.pieces, ih hrest, List.filterMap_cons, Piece.value?]
    | embed value verb span =>
      obtain ⟨-, text', args', hrest, rfl, -⟩ := Template.format_embed_eq_ok.mp h
      simp [World.pieces, w.firsts_cons, World.value, ih hrest, Piece.value?]

/-- An operand of `throw` that is no text is the error itself. -/
theorem errors_eq {e : Expr} (h : isErrorText e = false) (z : Option (List Expr)) (ρ : Env V) :
    w.errors z ρ e = w.values z ρ e := by
  cases e with
  | lit value => cases value <;> first | rfl | cases h
  | template => cases h
  | _ => rfl

/-- The supply after the callee of a call. -/
def afterCallee (cx : Context) (frame : Frame) (callee : Expr) (args : List Expr)
    (s : NameSupply) : NameSupply :=
  (spillBefore (args.any Expr.containsAttempt) (lowerExpr cx frame callee s).value
    (lowerExpr cx frame callee s).supply).supply

/-- What is done with a callee and its arguments. -/
theorem start_sim {callee : Expr} {args : List Expr} {span : Span}
    (action : V → List V → Action V) (g : Given w visible frame s)
    (hcallee : ExprSim w visible frame callee s)
    (hargs : ListSim w visible frame args (afterCallee w.context frame callee args s)) :
    Sim w visible s (lowerExpr w.context frame (.call callee args span) s).supply
      (lowerExpr w.context frame (.call callee args span) s).code
      (fun ρ => w.started frame.zeros? ρ action (.call callee args span))
      fun ρ =>
        w.started none ρ action (lowerExpr w.context frame (.call callee args span) s).value := by
  have hsim := hcallee.sim.operand g.ready hargs.operands (lowerOrdered_code_eq_nil _ _ _ _)
    fun callee args => w.act (action callee args)
  exact hsim.congr (fun _ => rfl) (fun _ => rfl) (by simp [lowerExpr, afterCallee])

/-- An accepted start of a call lowers the call as it stands. -/
theorem launched_eq {launch : Launch} {call : Expr} {lowered : Pass Expr}
    (hf : (launched launch call lowered s).notes.faults = []) :
    launched launch call lowered = lowered := by
  cases call with
  | attempt => simp [launched] at hf
  | _ => rfl

/-- A call that is launched. -/
theorem launch_runs {call : Expr} (launch : Launch) (mk : Expr → Stmt)
    (hmk : ∀ z ρ e, w.stmt z ρ (mk e) = (do
      let _ ← w.started z ρ (.launch launch) e
      pure ρ)) {step : Step Unit}
    (hstep : (do
      checkDiscarded w.context call
      let call ← launched launch call (lowerExpr w.context frame call)
      Pass.emit [mk call] : Pass Unit) s = step) (hf : step.notes.faults = [])
    (h : (lowerExpr w.context frame call s).notes.faults = [] → ExprSim w visible frame call s) :
    Runs w visible s step.supply (fun ρ => w.stmt frame.zeros? ρ (mk call))
      fun ρ => w.stmts none ρ step.code := by
  subst hstep
  obtain ⟨hsupply, hcode⟩ := checkDiscarded_eq w.context call s
  obtain ⟨-, hf⟩ := faults_of_bind hf
  rw [hsupply] at hf
  obtain ⟨hfl, -⟩ := faults_of_bind hf
  have hlaunched := launched_eq hfl
  rw [hlaunched] at hfl ⊢
  simp only [Pass.supply_bind, Pass.code_bind, Pass.supply_emit, Pass.code_emit, hsupply, hcode,
    List.nil_append]
  refine (((h hfl).started (.launch launch)).runs (f := fun ρ _ => pure ρ)
    fun {ρ ρ'} halike => ?_).congr (fun ρ => hmk _ ρ call) fun _ => rfl
  rw [hmk]
  exact .after _ fun _ => .pure halike (.refl ρ) (.refl ρ')

/-- The error that is thrown is simulated. -/
abbrev ErrorSim (w : World V) (visible : List String) (frame : Frame) (value : Expr)
    (s : NameSupply) : Prop :=
  Sim w visible s (lowerExpr w.context frame value s).supply
    (lowerExpr w.context frame value s).code (fun ρ => w.errors frame.zeros? ρ value)
    fun ρ => w.values none ρ (errorValue w.context.settings
      (lowerExpr w.context frame value s).value (lowerExpr w.context frame value s).supply).value

/-- A text is thrown as a new error. -/
theorem errorSim_string (text : String) (span : Span) :
    ErrorSim w visible frame (.lit (.string text) span) s := by
  refine .plain (.refl s) fun {ρ ρ'} halike => ?_
  have hfirsts : w.firsts none ρ' [] = pure [] := rfl
  show _ = w.values none ρ' (Path.call w.context.settings.errorConstructor
    [.lit (.string text) span])
  have hpath : ρ'.get? (Path.head w.context.settings.errorConstructor) = none :=
    halike.clear.get? (by simp [Settings.globals])
  rw [World.errors, Path.call, Expr.apply, w.values_call_reference, hfirsts, pure_bind,
    w.follow_read hpath]

/-- A template is thrown as a formatted error, whose embeds are simulated. -/
theorem errorSim_template {segments : List Segment} {span : Span}
    (h : Sim w visible s (lowerSegments w.context frame segments s).supply
      (lowerSegments w.context frame segments s).code (fun ρ => w.pieces frame.zeros? ρ segments)
      fun ρ => w.pieces none ρ (lowerSegments w.context frame segments s).value)
    (hf : (errorValue w.context.settings
      (lowerExpr w.context frame (.template segments span) s).value
      (lowerExpr w.context frame (.template segments span) s).supply).notes.faults = []) :
    ErrorSim w visible frame (.template segments span) s := by
  have hlower : lowerExpr w.context frame (.template segments span) =
      (.template · span) <$> lowerSegments w.context frame segments := rfl
  rw [ErrorSim]
  rw [hlower, Pass.value_map, Pass.supply_map, errorValue] at hf ⊢
  cases hexpand : Template.expand w.context.settings.errorFormatFunction
      (lowerSegments w.context frame segments s).value span with
  | error fault => simp [hexpand] at hf
  | ok expanded =>
    obtain ⟨⟨text, args⟩, hformat, hexpanded⟩ := bind_eq_ok hexpand
    cases hexpanded
    obtain ⟨args', hformat'⟩ := format_lowerSegments hformat
    have htext : w.formatText segments = w.lit (.string (String.ofList text)) := by
      rw [World.formatText, hformat']
    have hsim := h.bind
      (f := fun _ pieces => w.act (.call (w.pathValue w.context.settings.errorFormatFunction)
        (w.lit (.string (String.ofList text)) :: pieces.filterMap Piece.value?)))
      fun pieces halike => by
        rw [← w.follow_read (halike.clear.get? (by simp [Settings.globals]))]
    refine hsim.congr (fun ρ => ?_) (fun ρ => ?_) (by rw [Pass.code_map])
    · rw [World.errors, htext]
    · show w.values none ρ (.call _ _ _) = _
      rw [w.values_call_reference, firsts_format hformat, bind_map_left]

/-- Any other value is the error itself. -/
theorem errorSim_other {value : Expr} (h : isErrorText value = false)
    (hvalue : ExprSim w visible frame value s) : ErrorSim w visible frame value s := by
  refine hvalue.sim.congr (fun ρ => errors_eq h _ ρ) (fun ρ => ?_) rfl
  rw [errorValue_eq (isErrorText_lowerExpr w.context frame h s)]
  rfl

/-- Making an error takes no name and emits no code. -/
theorem errorValue_step (settings : Settings) (e : Expr) (s : NameSupply) :
    (errorValue settings e s).supply = s ∧ (errorValue settings e s).code = [] := by
  by_cases h : isErrorText e
  · cases e with
    | lit value => cases value <;> exact ⟨rfl, rfl⟩
    | template segments span =>
      rw [errorValue]
      cases Template.expand settings.errorFormatFunction segments span <;> exact ⟨rfl, rfl⟩
    | _ => cases h
  · rw [errorValue_eq (by simpa using h)]
    exact ⟨rfl, rfl⟩

end Desugar.Propagation
