import Desugar.Propagation
import Desugar.Proofs.Fresh
import Desugar.Proofs.Pass
import Desugar.Proofs.Tree.Nodes
import Desugar.Proofs.Tree.Occurrence

/-!
# What hoisting leaves in place

A `try` is hoisted ahead of the statement that contains it, and operands that stand before it are
spilled if they run something. What remains in the statement is evaluated after all hoisted code.

- `lowerExpr_code_eq_nil`: an expression without a `try` needs no code.
- `length_lowerStmt_code`: a statement without a `try` is replaced by a single statement.
- `Expr.leavesEffect` tells that the residual of an expression still runs something, and
  `isPure_lowerExpr` that it runs nothing otherwise.
- `targetsInOrder` is the condition under which the targets of an assignment are evaluated in
  order: no residual that runs something is followed by a hoisted `try`. Operands of targets are
  spilled only if a value contains a `try`, so a `try` in a later target can break it.
-/

namespace Desugar

mutual
/-- Evaluating the expression still runs something after its `try`s are hoisted. -/
def Expr.leavesEffect (e : Expr) : Bool :=
  match e with
  | .ident _ _ | .lit _ _ | .ofType _ _ | .func _ _ _ _ | .attempt _ _ => false
  | .call _ _ _ => true
  | .binary op left right _ =>
    if op.isShortCircuit && right.containsAttempt then false
    else left.leavesEffect && !right.containsAttempt || right.leavesEffect
  | .unary op operand _ => op == .receive || operand.leavesEffect
  | .selector base _ _ => base.leavesEffect
  | .index base index _ => base.leavesEffect && !index.containsAttempt || index.leavesEffect
  | .composite _ elements _ => Element.leaveEffect elements
  | .template segments _ => Segment.leaveEffect segments
termination_by structural e

/-- Evaluating the elements still runs something after their `try`s are hoisted. -/
def Element.leaveEffect (elements : List Element) : Bool :=
  match elements with
  | [] => false
  | ⟨none, value⟩ :: rest =>
    value.leavesEffect && !rest.any Element.containsAttempt || Element.leaveEffect rest
  | ⟨some key, value⟩ :: rest =>
    key.leavesEffect && !(value.containsAttempt || rest.any Element.containsAttempt) ||
      (value.leavesEffect && !rest.any Element.containsAttempt || Element.leaveEffect rest)
termination_by structural elements

/-- Evaluating the embeds still runs something after their `try`s are hoisted. -/
def Segment.leaveEffect (segments : List Segment) : Bool :=
  match segments with
  | [] => false
  | .text _ :: rest => Segment.leaveEffect rest
  | .embed value _ _ :: rest =>
    value.leavesEffect && !rest.any Segment.containsAttempt || Segment.leaveEffect rest
termination_by structural segments
end

/-- The expression is a place whose operands can be spilled. -/
def Expr.isPinned : Expr → Bool
  | .index _ _ _ | .selector _ _ _ | .unary .deref _ _ => true
  | _ => false

/-- No target that still runs something is followed by a `try`, unless its operands are
spilled. -/
def targetsInOrder (spilling : Bool) : List Expr → Bool
  | [] => true
  | target :: rest =>
    (!(spilling || rest.any Expr.containsAttempt) || !target.leavesEffect ||
      spilling && target.isPinned) && targetsInOrder spilling rest

/-- If the node is an assignment, then its targets are evaluated in order. -/
def Node.inOrder : Node → Bool
  | .stmt (.assign targets _ values _) => targetsInOrder (values.any Expr.containsAttempt) targets
  | _ => true

/-- The node is a loop. -/
def Node.isLoop : Node → Bool
  | .stmt (.loop _ _ _) => true
  | _ => false

namespace Propagation

variable (cx : Context) (frame : Frame)

@[simp] theorem spillBefore_false (e : Expr) : spillBefore false e = pure e := rfl

/-- The check of a return clause emits no code. -/
theorem literalShape_code (returns : Option Ty) (span : Span) (s : NameSupply) :
    (literalShape cx returns span s).code = [] := by
  unfold literalShape
  cases ReturnShape.ofClause cx.settings.optionPolicy returns <;> rfl

mutual
/-- An expression without a `try` needs no code. -/
theorem lowerExpr_code_eq_nil : ∀ (e : Expr) (s : NameSupply), e.containsAttempt = false →
    (lowerExpr cx frame e s).code = []
  | .ident _ _, _, _ | .lit _ _, _, _ | .ofType _ _, _, _ => rfl
  | .attempt _ _, _, h => by simp [Expr.containsAttempt_eq (.attempt ..), Expr.isAttempt] at h
  | .binary op left right _, s, h => by
    obtain ⟨hl, hr⟩ : left.containsAttempt = false ∧ right.containsAttempt = false := by
      simpa [Expr.containsAttempt_eq (.binary ..), Expr.isAttempt, Expr.parts] using h
    simp [lowerExpr, hr, lowerExpr_code_eq_nil left _ hl,
      lowerExpr_code_eq_nil right _ hr]
  | .call callee args _, s, h => by
    obtain ⟨hc, ha⟩ : callee.containsAttempt = false ∧ args.any Expr.containsAttempt = false := by
      simpa [Expr.containsAttempt_eq (.call ..), Expr.isAttempt, Expr.parts] using h
    simp [lowerExpr, ha, lowerExpr_code_eq_nil callee _ hc, lowerOrdered_code_eq_nil args _ ha]
  | .unary _ operand _, s, h => by
    have ho : operand.containsAttempt = false := by
      simpa [Expr.containsAttempt_eq (.unary ..), Expr.isAttempt, Expr.parts] using h
    simp [lowerExpr, lowerExpr_code_eq_nil operand _ ho]
  | .selector base _ _, s, h => by
    have hb : base.containsAttempt = false := by
      simpa [Expr.containsAttempt_eq (.selector ..), Expr.isAttempt, Expr.parts] using h
    simp [lowerExpr, lowerExpr_code_eq_nil base _ hb]
  | .index base index _, s, h => by
    obtain ⟨hb, hi⟩ : base.containsAttempt = false ∧ index.containsAttempt = false := by
      simpa [Expr.containsAttempt_eq (.index ..), Expr.isAttempt, Expr.parts] using h
    simp [lowerExpr, hi, lowerExpr_code_eq_nil base _ hb,
      lowerExpr_code_eq_nil index _ hi]
  | .composite _ elements _, s, h => by
    have he : elements.any Element.containsAttempt = false := by
      rw [Expr.containsAttempt_eq, Expr.parts, any_containsAttempt_elements] at h
      simpa [Expr.isAttempt] using h
    simp [lowerExpr, lowerElements_code_eq_nil elements _ he]
  | .template segments _, s, h => by
    have hg : segments.any Segment.containsAttempt = false := by
      rw [Expr.containsAttempt_eq, Expr.parts, any_containsAttempt_segments] at h
      simpa [Expr.isAttempt] using h
    simp [lowerExpr, lowerSegments_code_eq_nil segments _ hg]
  | .func _ returns ⟨_, _⟩ span, s, _ => by
    simp [lowerExpr, lowerBlock, literalShape_code]

/-- Operands without a `try` emit no code, by recursion on the tree. -/
theorem lowerOrdered_code_eq_nil : ∀ (es : List Expr) (s : NameSupply),
    es.any Expr.containsAttempt = false → (lowerOrdered cx frame es s).code = []
  | [], _, _ => rfl
  | e :: rest, s, h => by
    obtain ⟨he, hrest⟩ : e.containsAttempt = false ∧ rest.any Expr.containsAttempt = false := by
      simpa using h
    simp [lowerOrdered, hrest, lowerExpr_code_eq_nil e _ he,
      lowerOrdered_code_eq_nil rest _ hrest]

theorem lowerElements_code_eq_nil : ∀ (elements : List Element) (s : NameSupply),
    elements.any Element.containsAttempt = false → (lowerElements cx frame elements s).code = []
  | [], _, _ => rfl
  | ⟨none, value⟩ :: rest, s, h => by
    obtain ⟨hv, hrest⟩ : value.containsAttempt = false ∧
        rest.any Element.containsAttempt = false := by
      simpa [Element.containsAttempt] using h
    simp [lowerElements, hrest, lowerExpr_code_eq_nil value _ hv,
      lowerElements_code_eq_nil rest _ hrest]
  | ⟨some key, value⟩ :: rest, s, h => by
    obtain ⟨⟨hk, hv⟩, hrest⟩ : (key.containsAttempt = false ∧ value.containsAttempt = false) ∧
        rest.any Element.containsAttempt = false := by
      simpa [Element.containsAttempt] using h
    simp [lowerElements, hrest, hv, lowerExpr_code_eq_nil key _ hk,
      lowerExpr_code_eq_nil value _ hv, lowerElements_code_eq_nil rest _ hrest]

theorem lowerSegments_code_eq_nil : ∀ (segments : List Segment) (s : NameSupply),
    segments.any Segment.containsAttempt = false → (lowerSegments cx frame segments s).code = []
  | [], _, _ => rfl
  | .text _ :: rest, s, h => by
    have hrest : rest.any Segment.containsAttempt = false := by
      simpa [Segment.containsAttempt] using h
    simp [lowerSegments, lowerSegments_code_eq_nil rest _ hrest]
  | .embed value _ _ :: rest, s, h => by
    obtain ⟨hv, hrest⟩ : value.containsAttempt = false ∧
        rest.any Segment.containsAttempt = false := by
      simpa [Segment.containsAttempt] using h
    simp [lowerSegments, hrest, lowerExpr_code_eq_nil value _ hv,
      lowerSegments_code_eq_nil rest _ hrest]
end

/-! ### Statements without a `try` -/

/-- A block is a value, so its statements are not emitted where it stands. -/
theorem lowerBlock_code (block : Block) (s : NameSupply) :
    (lowerBlock cx frame block s).code = [] := by
  cases block
  rfl

/-- What follows a failed condition emits no code before the conditional. -/
theorem lowerElse_code (otherwise : Else) (s : NameSupply) :
    (lowerElse cx frame otherwise s).code = [] := by
  cases otherwise with
  | none => rfl
  | block body => simp [lowerElse, lowerBlock_code]
  | elseIf branch =>
    rw [lowerElse, Pass.code_bind, Pass.code_collect, List.nil_append]
    dsimp only
    split <;> rfl

/-- Targets without a `try` emit no code, unless they are spilled. -/
theorem lowerTargets_code_eq_nil {es : List Expr}
    (h : es.any Expr.containsAttempt = false) (s : NameSupply) :
    (lowerTargets cx frame false es s).code = [] := by
  induction es generalizing s with
  | nil => rfl
  | cons e rest ih =>
    obtain ⟨he, hrest⟩ : e.containsAttempt = false ∧ rest.any Expr.containsAttempt = false := by
      simpa using h
    simp [lowerTargets, lowerExpr_code_eq_nil cx frame e _ he, ih hrest]

/-- The values are a single `try`, or none of them is taken for one. -/
theorem soleAttempt_cases (es : List Expr) :
    (∃ operand span, es = [.attempt operand span]) ∨
      soleAttempt cx frame es = none ∧ ∀ operand span, es ≠ [.attempt operand span] := by
  match es with
  | [] => exact .inr ⟨rfl, by simp⟩
  | e :: _ :: _ => cases e <;> exact .inr ⟨rfl, by simp⟩
  | [e] =>
    cases e with
    | attempt operand span => exact .inl ⟨operand, span, rfl⟩
    | _ => exact .inr ⟨rfl, by simp⟩

/-- The check of the targets of a call takes no name and emits no code. -/
theorem checkCapture_eq (targets : Nat) (es : List Expr) (s : NameSupply) :
    (checkCapture cx targets es s).supply = s ∧ (checkCapture cx targets es s).code = [] := by
  match es with
  | [] | _ :: _ :: _ => exact ⟨rfl, rfl⟩
  | [e] =>
    rw [checkCapture]
    cases failing? cx e with
    | none => exact ⟨rfl, rfl⟩
    | some sig => by_cases h : targets < sig.slotCount <;> simp [h]

/-- Assigned values without a `try` emit no code. -/
theorem assigned_code_eq_nil (targets : Nat) {es : List Expr}
    (h : es.any Expr.containsAttempt = false) (s : NameSupply) :
    (assigned cx frame targets es (soleAttempt cx frame es) (lowerOrdered cx frame es) s).code =
      [] := by
  rcases soleAttempt_cases cx frame es with ⟨operand, span, rfl⟩ | ⟨hnone, -⟩
  · simp [Expr.containsAttempt_eq (.attempt ..), Expr.isAttempt] at h
  · obtain ⟨hsupply, hcode⟩ := checkCapture_eq cx targets es s
    simp [hnone, assigned, hsupply, hcode, lowerOrdered_code_eq_nil cx frame es s h]

/-- The check of a dropped error takes no name and emits no code. -/
theorem checkDiscarded_eq (e : Expr) (s : NameSupply) :
    (checkDiscarded cx e s).supply = s ∧ (checkDiscarded cx e s).code = [] := by
  unfold checkDiscarded
  cases failing? cx e <;> exact ⟨rfl, rfl⟩

/-- An expression that is a statement is lowered in place, unless it is a `try`. -/
theorem lowerStmt_expr {value : Expr}
    (h : value.isAttempt = false) :
    lowerStmt cx frame (.expr value) = (do
      checkDiscarded cx value
      let value ← lowerExpr cx frame value
      Pass.emit [.expr value]) := by
  cases value with
  | attempt => cases h
  | _ => rfl

theorem any_containsAttempt_visitList (es : List Expr) :
    (Expr.visitList Expr.outsideFuncs es).any Expr.isAttempt = es.any Expr.containsAttempt :=
  any_visitList Expr.isAttempt es

/-- Returned values without a `try` emit no code. -/
theorem returned_code_eq_nil {es : List Expr} (h : es.any Expr.containsAttempt = false)
    (span : Span) (s : NameSupply) :
    (returned cx frame es span (soleAttempt cx frame es) (lowerOrdered cx frame es) s).code =
      [] := by
  rcases soleAttempt_cases cx frame es with ⟨operand, span, rfl⟩ | ⟨hnone, -⟩
  · simp [Expr.containsAttempt_eq (.attempt ..), Expr.isAttempt] at h
  · have hordered := lowerOrdered_code_eq_nil cx frame es s h
    rw [hnone, returned]
    split
    · exact hordered
    · split
      · simp [hordered]
      · split
        · exact hordered
        · rfl

/-- Making an error emits no code. -/
theorem errorValue_code (settings : Settings) (e : Expr) (s : NameSupply) :
    (errorValue settings e s).code = [] := by
  unfold errorValue
  split
  · rfl
  · rename_i segments span
    cases Template.expand settings.errorFormatFunction segments span <;> rfl
  · rfl

/-- A started call without a `try` emits no code. -/
theorem launched_code_eq_nil (launch : Launch) {call : Expr} (h : call.containsAttempt = false)
    (s : NameSupply) : (launched launch call (lowerExpr cx frame call) s).code = [] := by
  unfold launched
  split
  · rfl
  · exact lowerExpr_code_eq_nil cx frame call s h

/-- The condition of a loop cannot be hoisted, so it emits no code. -/
theorem loopCondition_code (test : Expr) (lowered : Pass Expr) (s : NameSupply) :
    (loopCondition test lowered s).code = [] := by
  unfold loopCondition
  split <;> rfl

theorem lowerCondition_code (condition : Option Expr) (s : NameSupply) :
    (lowerCondition cx frame condition s).code = [] := by
  cases condition with
  | none => rfl
  | some test => simp [lowerCondition, loopCondition_code]

theorem lowerPost_code (post : Option Stmt) (s : NameSupply) :
    (lowerPost cx frame post s).code = [] := by
  cases post with
  | none => rfl
  | some stmt =>
    rw [lowerPost]
    split <;> rfl

mutual
/-- A statement without a `try` is replaced by one statement at most. -/
theorem length_lowerStmt_code : ∀ (stmt : Stmt) (s : NameSupply), stmt.containsAttempt = false →
    (lowerStmt cx frame stmt s).code.length ≤ 1
  | .expr value, s, h => by
    have hvalue : value.containsAttempt = false := h
    have hattempt : value.isAttempt = false := by
      rw [Expr.containsAttempt_eq, Bool.or_eq_false_iff] at hvalue
      exact hvalue.1
    obtain ⟨-, hcode⟩ := checkDiscarded_eq cx value s
    simp [lowerStmt_expr cx frame hattempt, hcode, lowerExpr_code_eq_nil cx frame value _ hvalue]
  | .assign targets op values span, s, h => by
    rw [Stmt.containsAttempt, Stmt.visit, List.any_append, Bool.or_eq_false_iff,
      any_containsAttempt_visitList, any_containsAttempt_visitList] at h
    obtain ⟨htargets, hvalues⟩ := h
    simp [lowerStmt, hvalues, lowerTargets_code_eq_nil cx frame htargets,
      assigned_code_eq_nil cx frame _ hvalues]
  | .var names ty values span, s, h => by
    rw [Stmt.containsAttempt, Stmt.visit, any_containsAttempt_visitList] at h
    simp [lowerStmt, assigned_code_eq_nil cx frame _ h]
  | .ret values span, s, h => by
    rw [Stmt.containsAttempt, Stmt.visit, any_containsAttempt_visitList] at h
    rw [lowerStmt]
    split
    · simp [returned_code_eq_nil cx frame h]
    · simp [lowerOrdered_code_eq_nil cx frame values _ h]
  | .throw value span, s, h => by
    have hvalue : value.containsAttempt = false := h
    rw [lowerStmt]
    split
    · simp [lowerExpr_code_eq_nil cx frame value _ hvalue, errorValue_code]
    · simp
  | .cond ⟨condition, thenBlock, otherwise, span⟩, s, h => by
    have hcondition : condition.containsAttempt = false := by
      rw [Stmt.containsAttempt, Stmt.visit, If.visit, List.append_assoc, List.any_append,
        Bool.or_eq_false_iff] at h
      exact h.1
    simp [lowerStmt, lowerIf, lowerExpr_code_eq_nil cx frame condition _ hcondition,
      lowerBlock_code, lowerElse_code]
  | .loop clause body span, s, h => by
    have hclause : (clause.visit Expr.outsideFuncs).any Expr.isAttempt = false := by
      rw [Stmt.containsAttempt, Stmt.visit, List.any_append, Bool.or_eq_false_iff] at h
      exact h.1
    simp [lowerStmt, lowerClause_code_eq_nil clause _ hclause, lowerBlock_code]
  | .bind names call span, s, h => by simp [lowerStmt, launched_code_eq_nil cx frame .go h]
  | .go call span, s, h => by
    obtain ⟨-, hcode⟩ := checkDiscarded_eq cx call s
    simp [lowerStmt, hcode, launched_code_eq_nil cx frame .go h]
  | .defer call span, s, h => by
    obtain ⟨-, hcode⟩ := checkDiscarded_eq cx call s
    simp [lowerStmt, hcode, launched_code_eq_nil cx frame .defer h]
  | .block body, s, _ => by simp [lowerStmt, lowerBlock_code]
  | .breakLoop _, _, _ | .continueLoop _, _, _ => Nat.le_refl 1

/-- A loop header without a `try` emits no code. -/
theorem lowerClause_code_eq_nil : ∀ (clause : Clause) (s : NameSupply),
    (clause.visit Expr.outsideFuncs).any Expr.isAttempt = false →
      (lowerClause cx frame clause s).code = []
  | .infinite, _, _ => rfl
  | .condition test, s, _ => by simp [lowerClause, loopCondition_code]
  | .three none condition post, s, _ => by
    simp [lowerClause, lowerFirst, lowerCondition_code, lowerPost_code]
  | .three (some first) condition post, s, h => by
    have hfirst : first.containsAttempt = false := by
      rw [Clause.visit, List.append_assoc, List.any_append, Bool.or_eq_false_iff] at h
      exact h.1
    have hlength := length_lowerStmt_code first s hfirst
    have hdrop : (lowerStmt cx frame first s).code.dropLast = [] :=
      List.eq_nil_of_length_eq_zero (by simp; omega)
    simp [lowerClause, lowerFirst, hdrop, lowerCondition_code, lowerPost_code]
  | .range _ _ _ source, s, h => by
    have hsource : source.containsAttempt = false := h
    simp [lowerClause, lowerExpr_code_eq_nil cx frame source _ hsource]
end

@[simp] theorem isPure_name (x : String) : (Expr.name x).isPure = true := rfl

@[simp] theorem isPure_nil : Expr.nil.isPure = true := rfl

/-- A spilled operand runs nothing any more. -/
theorem isPure_spill (e : Expr) (s : NameSupply) : (spill e s).value.isPure = true := by
  unfold spill
  split
  · assumption
  · rfl

/-- An operand that is spilled, or runs nothing, is pure. -/
theorem isPure_spillBefore {later : Bool} {e : Expr} (s : NameSupply)
    (h : later = false → e.isPure = true) : (spillBefore later e s).value.isPure = true := by
  cases later with
  | false => exact h rfl
  | true => exact isPure_spill e s

/-- A made-up name does not hide `new`. -/
theorem ne_new_of_mem_freshList {x : String} (rs : List String) (s : NameSupply)
    (hx : x ∈ (s.freshList rs).1) : x ≠ "new" := by
  induction rs generalizing s with
  | nil => simp [NameSupply.freshList] at hx
  | cons role rs ih =>
    rcases List.mem_cons.mp hx with rfl | hx
    · exact s.candidate_ne role _ (by decide)
    · exact ih _ hx

/-- The values of a hoisted `try` are made-up names. -/
theorem hoist_value (keep : Bool) (attempt : Attempt) (s : NameSupply) :
    ∀ values ∈ (hoist cx frame keep attempt s).value, ∀ e ∈ values,
      ∃ x, e = Expr.name x ∧ x ≠ "new" := by
  have hnames : ∀ (rs : List String) (s : NameSupply),
      ∀ e ∈ (s.freshList rs).1.map Expr.name, ∃ x, e = Expr.name x ∧ x ≠ "new" := by
    intro rs s e he
    obtain ⟨x, hx, rfl⟩ := List.mem_map.mp he
    exact ⟨x, rfl, ne_new_of_mem_freshList rs s hx⟩
  unfold hoist
  by_cases hframe : frame.isResult
  case neg => simp [hframe]
  case pos =>
    cases attempt.operand with
    | call callee args =>
      cases hsig : cx.resolve? callee with
      | none => simp [hframe, hsig]
      | some sig =>
        by_cases hresult : sig.isResult
        · rintro values hvalues e he
          simp only [hframe, hsig, hresult] at hvalues
          obtain rfl : _ = values := by simpa using hvalues
          exact hnames _ _ e he
        · simp [hframe, hsig, hresult]
    | _ => simp [hframe]

/-- A hoisted `try` is replaced by a made-up name, or by nil if it is at fault. -/
theorem attemptValue_value (attempt : Attempt) (s : NameSupply) :
    (attemptValue cx frame attempt s).value = .nil ∨
      ∃ x, (attemptValue cx frame attempt s).value = .name x ∧ x ≠ "new" := by
  have hvalue := hoist_value cx frame true attempt s
  simp only [attemptValue, Pass.value_bind]
  revert hvalue
  cases (hoist cx frame true attempt s).value with
  | none => exact fun _ => .inl rfl
  | some values =>
    intro hvalue
    match values with
    | [] => exact .inl rfl
    | [e] => exact .inr (hvalue [e] rfl e (by simp))
    | _ :: _ :: _ => exact .inl rfl

/-- What takes the place of a hoisted `try` runs nothing. -/
theorem isPure_attemptValue (attempt : Attempt) (s : NameSupply) :
    (attemptValue cx frame attempt s).value.isPure = true := by
  rcases attemptValue_value cx frame attempt s with h | ⟨x, h, -⟩
  · rw [h, isPure_nil]
  · rw [h, isPure_name]

/-- A string literal or a template, which `throw` makes an error of. -/
def isErrorText : Expr → Bool
  | .lit (.string _) _ | .template _ _ => true
  | _ => false

/-- An expression that is no text is not lowered to one. -/
theorem isErrorText_lowerExpr {e : Expr} (h : isErrorText e = false) (s : NameSupply) :
    isErrorText (lowerExpr cx frame e s).value = false := by
  cases e with
  | lit => exact h
  | template => cases h
  | attempt operand span =>
    rw [lowerExpr]
    rcases attemptValue_value cx frame _ s with hvalue | ⟨x, hvalue, -⟩
    · rw [hvalue]; rfl
    · rw [hvalue]; rfl
  | binary op left right span => rw [lowerExpr]; split <;> rfl
  | _ => rfl

/-- An error that is thrown is left as it is, unless it is a text. -/
theorem errorValue_eq {settings : Settings} {e : Expr} (h : isErrorText e = false) :
    errorValue settings e = pure e := by
  cases e with
  | lit value => cases value <;> first | rfl | cases h
  | template => cases h
  | _ => rfl

theorem of_leaves_eq_false {first later rest : Bool} (h : (first && !later || rest) = false) :
    (later = false → first = false) ∧ rest = false := by
  cases first <;> cases later <;> simp_all

/-! ### Residuals -/

mutual
/-- A residual that is not expected to run anything runs nothing. -/
theorem isPure_lowerExpr : ∀ (e : Expr) (s : NameSupply), e.leavesEffect = false →
    (lowerExpr cx frame e s).value.isPure = true
  | .ident _ _, _, _ | .lit _ _, _, _ | .ofType _ _, _, _ => rfl
  | .attempt _ _, _, _ => isPure_attemptValue cx frame _ _
  | .call _ _ _, _, h => by simp [Expr.leavesEffect] at h
  | .func _ _ _ _, _, _ => rfl
  | .binary op left right _, s, h => by
    rw [lowerExpr]
    rw [Expr.leavesEffect] at h
    split
    · rfl
    case isFalse hguard =>
      rw [if_neg hguard] at h
      obtain ⟨hl, hr⟩ := of_leaves_eq_false h
      simp [Expr.isPure_eq (.binary ..), Expr.parts, Expr.isEffect, isPure_lowerExpr right _ hr,
        isPure_spillBefore _ fun hlater => isPure_lowerExpr left s (hl hlater)]
  | .unary op operand _, s, h => by
    obtain ⟨hop, ho⟩ : op ≠ .receive ∧ operand.leavesEffect = false := by
      simpa [Expr.leavesEffect] using h
    cases op <;> simp_all [lowerExpr, Expr.isPure_eq (.unary ..), Expr.parts, Expr.isEffect,
      isPure_lowerExpr operand s]
  | .selector base _ _, s, h => by
    rw [Expr.leavesEffect] at h
    simp [lowerExpr, Expr.isPure_eq (.selector ..), Expr.parts, Expr.isEffect,
      isPure_lowerExpr base s h]
  | .index base index _, s, h => by
    rw [Expr.leavesEffect] at h
    obtain ⟨hb, hi⟩ := of_leaves_eq_false h
    simp [lowerExpr, Expr.isPure_eq (.index ..), Expr.parts, Expr.isEffect,
      isPure_lowerExpr index _ hi,
      isPure_spillBefore _ fun hlater => isPure_lowerExpr base s (hb hlater)]
  | .composite _ elements _, s, h => by
    rw [Expr.leavesEffect] at h
    have helements := isPure_lowerElements elements s h
    simpa [lowerExpr, Expr.isPure_eq (.composite ..), Expr.parts, Expr.isEffect] using helements
  | .template segments _, s, h => by
    rw [Expr.leavesEffect] at h
    have hsegments := isPure_lowerSegments segments s h
    simpa [lowerExpr, Expr.isPure_eq (.template ..), Expr.parts, Expr.isEffect] using hsegments

theorem isPure_lowerElements : ∀ (elements : List Element) (s : NameSupply),
    Element.leaveEffect elements = false →
      ((lowerElements cx frame elements s).value.flatMap Element.parts).all Expr.isPure = true
  | [], _, _ => rfl
  | ⟨none, value⟩ :: rest, s, h => by
    rw [Element.leaveEffect] at h
    obtain ⟨hv, hrest⟩ := of_leaves_eq_false h
    simp only [lowerElements, Pass.value_bind, Pass.value_pure, List.flatMap_cons,
      List.all_append, isPure_lowerElements rest _ hrest]
    simp [Element.parts, isPure_spillBefore _ fun hlater => isPure_lowerExpr value s (hv hlater)]
  | ⟨some key, value⟩ :: rest, s, h => by
    rw [Element.leaveEffect] at h
    obtain ⟨hk, h⟩ := of_leaves_eq_false h
    obtain ⟨hv, hrest⟩ := of_leaves_eq_false h
    simp only [lowerElements, Pass.value_bind, Pass.value_pure, List.flatMap_cons,
      List.all_append, isPure_lowerElements rest _ hrest]
    simp [Element.parts, isPure_spillBefore _ fun hlater => isPure_lowerExpr key s (hk hlater),
      isPure_spillBefore _ fun hlater => isPure_lowerExpr value _ (hv hlater)]

theorem isPure_lowerSegments : ∀ (segments : List Segment) (s : NameSupply),
    Segment.leaveEffect segments = false →
      ((lowerSegments cx frame segments s).value.filterMap Segment.embedded?).all Expr.isPure =
        true
  | [], _, _ => rfl
  | .text _ :: rest, s, h => by
    rw [Segment.leaveEffect] at h
    have hrest := isPure_lowerSegments rest s h
    simpa [lowerSegments] using hrest
  | .embed value _ _ :: rest, s, h => by
    rw [Segment.leaveEffect] at h
    obtain ⟨hv, hrest⟩ := of_leaves_eq_false h
    simp only [lowerSegments, Pass.value_bind, Pass.value_pure, List.filterMap_cons,
      Segment.embedded?_embed, List.all_cons, isPure_lowerSegments rest _ hrest]
    simp [isPure_spillBefore _ fun hlater => isPure_lowerExpr value s (hv hlater)]
end

end Propagation

end Desugar
