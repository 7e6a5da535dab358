import Desugar.Proofs.Propagation.Account
import Desugar.Proofs.Propagation.Behaviour

/-!
# Assignments run their operands in order

An assignment runs the operands of its targets from left to right and then those of its values,
and a call or receive runs after its own operands. Hoisting takes an assignment apart into captured
calls, checks of their errors, temporaries and what is left of the assignment. The account of what
the pieces run, one after another and as long as no error is returned, is that of the assignment.

- `Expr.acts`: the calls and receives of an expression, in the order in which they run.
- `Stmt.run?`: what a statement runs if no error is returned.
- `Propagation.run_lowerStmt_assign`: the account is kept, if the targets are in order.
- `Propagation.run_lowerStmt_assign_crossed`: a `try` in a later target runs too early.
-/

namespace Desugar

/-- A call or a receive. A call is known by what it calls, if that is one of the names in question,
by the number of its arguments and by its place. -/
inductive Act where
  | call (callee : Option String) (args : Nat) (span : Span)
  | receive (span : Span)
deriving DecidableEq

/-- The name that is called, if it is one of the known ones. -/
def Expr.called (known : List String) (e : Expr) : Option String :=
  e.asName?.filter known.contains

mutual
/-- The calls and receives that evaluating an expression runs, outside function literals and with
every `try` going on. -/
def Expr.acts (known : List String) (e : Expr) : List Act :=
  match e with
  | .ident _ _ | .lit _ _ | .ofType _ _ | .func _ _ _ _ => []
  | .call callee args span =>
    callee.acts known ++ Expr.actsList known args ++
      [.call (callee.called known) args.length span]
  | .template segments _ => Segment.actsList known segments
  | .attempt operand _ => operand.acts known
  | .binary _ left right _ => left.acts known ++ right.acts known
  | .unary .receive operand span => operand.acts known ++ [.receive span]
  | .unary _ operand _ => operand.acts known
  | .selector base _ _ => base.acts known
  | .index base index _ => base.acts known ++ index.acts known
  | .composite _ elements _ => Element.actsList known elements
termination_by structural e

/-- What a list of expressions runs. -/
def Expr.actsList (known : List String) (es : List Expr) : List Act :=
  match es with
  | [] => []
  | e :: rest => e.acts known ++ Expr.actsList known rest
termination_by structural es

/-- What an optional expression runs. -/
def Expr.actsOption (known : List String) (e : Option Expr) : List Act :=
  match e with
  | none => []
  | some e => e.acts known
termination_by structural e

/-- What the embeds of a template run. -/
def Segment.actsList (known : List String) (segments : List Segment) : List Act :=
  match segments with
  | [] => []
  | .text _ :: rest => Segment.actsList known rest
  | .embed value _ _ :: rest => value.acts known ++ Segment.actsList known rest
termination_by structural segments

/-- What the elements of a composite literal run, a key before its value. -/
def Element.actsList (known : List String) (elements : List Element) : List Act :=
  match elements with
  | [] => []
  | ⟨key, value⟩ :: rest =>
    Expr.actsOption known key ++ value.acts known ++ Element.actsList known rest
termination_by structural elements
end

/-- What a statement of straight-line code runs if no error is returned: an assignment runs its
targets and then its values, and the check of an error runs nothing. -/
def Stmt.run? (known : List String) : Stmt → Option (List Act)
  | .assign targets _ values _ =>
    some (Expr.actsList known targets ++ Expr.actsList known values)
  | .cond ⟨.binary .ne (.ident _ _) (.lit .nil _) _, ⟨[.ret _ _], _⟩, .none, _⟩ => some []
  | _ => none

/-- What statements run one after another. -/
def Stmt.runAll? (known : List String) : List Stmt → Option (List Act)
  | [] => some []
  | stmt :: rest => do
    let acts ← stmt.run? known
    let later ← Stmt.runAll? known rest
    pure (acts ++ later)

/-- The node runs its right operand only if the left one does not decide the result. -/
def Expr.isGuard : Expr → Bool
  | .binary op _ _ _ => op.isShortCircuit
  | _ => false

/-- Every operand of the expression runs, outside function literals. -/
def Expr.isStraight (e : Expr) : Bool := !(e.visit Expr.outsideFuncs).any Expr.isGuard

section Acts

variable {known : List String}

@[simp] theorem Expr.acts_name (x : String) : (Expr.name x).acts known = [] := rfl

@[simp] theorem Expr.actsList_names (xs : List String) :
    Expr.actsList known (xs.map Expr.name) = [] := by
  induction xs with
  | nil => rfl
  | cons x xs ih => simpa [Expr.actsList] using ih

/-- Statements run what they run one after another. -/
theorem Stmt.runAll?_append {before after : List Stmt} {acts later : List Act}
    (hbefore : Stmt.runAll? known before = some acts)
    (hafter : Stmt.runAll? known after = some later) :
    Stmt.runAll? known (before ++ after) = some (acts ++ later) := by
  induction before generalizing acts with
  | nil =>
    cases hbefore
    exact hafter
  | cons stmt rest ih =>
    obtain ⟨own, hown, hbefore⟩ := Option.bind_eq_some_iff.mp hbefore
    obtain ⟨more, hmore, hacts⟩ := Option.bind_eq_some_iff.mp hbefore
    cases hacts
    simp [Stmt.runAll?, hown, ih hmore]

/-- A definition runs its values. -/
theorem Stmt.runAll?_define (names : List String) (values : List Expr) :
    Stmt.runAll? known [Stmt.define names values] = some (Expr.actsList known values) := by
  simp [Stmt.runAll?, Stmt.define, Stmt.run?]

/-- The operands of an expression in which every operand runs have this property, too. -/
theorem Expr.isStraight_parts {e : Expr} (h : e.isStraight = true) :
    ∀ part ∈ e.parts, part.isStraight = true := by
  intro part hpart
  have hnone : anyOutside Expr.isGuard e.parts = false := by
    rw [Expr.isStraight, any_visit_eq, Bool.not_or, Bool.and_eq_true_iff] at h
    simpa using h.2
  have hguard := List.any_eq_false.mp hnone part hpart
  simpa [Expr.isStraight] using hguard

/-- An operator that runs both operands is neither `&&` nor `||`. -/
theorem Expr.not_isShortCircuit {op : BinaryOp} {left right : Expr} {span : Span}
    (h : (Expr.binary op left right span).isStraight = true) : op.isShortCircuit = false := by
  rw [Expr.isStraight, any_visit_eq, Bool.not_or, Bool.and_eq_true_iff] at h
  simpa [Expr.isGuard] using h.1

/-! ### Expressions that run nothing -/

mutual
/-- A pure expression runs nothing, by recursion on the tree. -/
theorem Expr.acts_eq_nil : ∀ e : Expr, e.isPure = true → e.acts known = []
  | .ident _ _, _ => rfl
  | .lit _ _, _ => rfl
  | .ofType _ _, _ => rfl
  | .func _ _ _ _, _ => rfl
  | .call _ _ _, h => by simp [Expr.isPure_eq (.call ..), Expr.isEffect] at h
  | .attempt operand _, h => by
    have hoperand : operand.isPure = true := by
      simpa [Expr.isPure_eq (.attempt ..), Expr.isEffect, Expr.parts] using h
    exact Expr.acts_eq_nil operand hoperand
  | .binary _ left right _, h => by
    obtain ⟨hleft, hright⟩ : left.isPure = true ∧ right.isPure = true := by
      simpa [Expr.isPure_eq (.binary ..), Expr.isEffect, Expr.parts] using h
    rw [Expr.acts, Expr.acts_eq_nil left hleft, Expr.acts_eq_nil right hright]
    rfl
  | .unary op operand _, h => by
    cases op with
    | receive => simp [Expr.isPure_eq (.unary ..), Expr.isEffect] at h
    | _ =>
      have hoperand : operand.isPure = true := by
        simpa [Expr.isPure_eq (.unary ..), Expr.isEffect, Expr.parts] using h
      exact Expr.acts_eq_nil operand hoperand
  | .selector base _ _, h => by
    have hbase : base.isPure = true := by
      simpa [Expr.isPure_eq (.selector ..), Expr.isEffect, Expr.parts] using h
    exact Expr.acts_eq_nil base hbase
  | .index base index _, h => by
    obtain ⟨hbase, hindex⟩ : base.isPure = true ∧ index.isPure = true := by
      simpa [Expr.isPure_eq (.index ..), Expr.isEffect, Expr.parts] using h
    rw [Expr.acts, Expr.acts_eq_nil base hbase, Expr.acts_eq_nil index hindex]
    rfl
  | .composite _ elements _, h => by
    have helements : (elements.flatMap Element.parts).all Expr.isPure = true := by
      simpa [Expr.isPure_eq (.composite ..), Expr.isEffect, Expr.parts] using h
    exact Element.actsList_eq_nil elements helements
  | .template segments _, h => by
    have hsegments : (segments.filterMap Segment.embedded?).all Expr.isPure = true := by
      simpa [Expr.isPure_eq (.template ..), Expr.isEffect, Expr.parts] using h
    exact Segment.actsList_eq_nil segments hsegments

theorem Element.actsList_eq_nil : ∀ elements : List Element,
    (elements.flatMap Element.parts).all Expr.isPure = true → Element.actsList known elements = []
  | [], _ => rfl
  | ⟨none, value⟩ :: rest, h => by
    obtain ⟨hvalue, hrest⟩ : value.isPure = true ∧
        (rest.flatMap Element.parts).all Expr.isPure = true := by
      rw [List.flatMap_cons, List.all_append, Bool.and_eq_true_iff] at h
      exact ⟨by simpa [Element.parts] using h.1, h.2⟩
    rw [Element.actsList, Expr.acts_eq_nil value hvalue, Element.actsList_eq_nil rest hrest]
    rfl
  | ⟨some key, value⟩ :: rest, h => by
    obtain ⟨⟨hkey, hvalue⟩, hrest⟩ : (key.isPure = true ∧ value.isPure = true) ∧
        (rest.flatMap Element.parts).all Expr.isPure = true := by
      rw [List.flatMap_cons, List.all_append, Bool.and_eq_true_iff] at h
      exact ⟨by simpa [Element.parts] using h.1, h.2⟩
    rw [Element.actsList, Expr.actsOption, Expr.acts_eq_nil key hkey,
      Expr.acts_eq_nil value hvalue, Element.actsList_eq_nil rest hrest]
    rfl

theorem Segment.actsList_eq_nil : ∀ segments : List Segment,
    (segments.filterMap Segment.embedded?).all Expr.isPure = true →
      Segment.actsList known segments = []
  | [], _ => rfl
  | .text _ :: rest, h => Segment.actsList_eq_nil rest h
  | .embed value _ _ :: rest, h => by
    obtain ⟨hvalue, hrest⟩ := Bool.and_eq_true_iff.mp h
    rw [Segment.actsList, Expr.acts_eq_nil value hvalue, Segment.actsList_eq_nil rest hrest]
    rfl
end

end Acts

namespace Propagation

open Pass

/-! ### Code ahead of what is left -/

/-- The code, and after it what is left, run what is listed in `total`. -/
def Performs (known : List String) (code : List Stmt) (left total : List Act) : Prop :=
  ∃ before, Stmt.runAll? known code = some before ∧ before ++ left = total

namespace Performs

variable {known : List String} {code code' : List Stmt} {left left' total total' : List Act}

theorem nothing (total : List Act) : Performs known [] total total := ⟨[], rfl, rfl⟩

/-- What is left is taken further. -/
theorem trans (h : Performs known code left total) (h' : Performs known code' left' left) :
    Performs known (code ++ code') left' total := by
  obtain ⟨before, hcode, rfl⟩ := h
  obtain ⟨before', hcode', rfl⟩ := h'
  exact ⟨before ++ before', Stmt.runAll?_append hcode hcode', List.append_assoc _ _ _⟩

/-- Two operands. The code of the second runs ahead of what is left of the first, so one of them
has to be empty. -/
theorem both (h : Performs known code left total) (h' : Performs known code' left' total')
    (hempty : left = [] ∨ code' = []) :
    Performs known (code ++ code') (left ++ left') (total ++ total') := by
  obtain ⟨before, hcode, rfl⟩ := h
  obtain ⟨before', hcode', rfl⟩ := h'
  refine ⟨before ++ before', Stmt.runAll?_append hcode hcode', ?_⟩
  rcases hempty with rfl | rfl
  · simp
  · cases hcode'
    simp

/-- A node runs after its operands. -/
theorem act (h : Performs known code left total) (acts : List Act) :
    Performs known code (left ++ acts) (total ++ acts) := by
  obtain ⟨before, hcode, rfl⟩ := h
  exact ⟨before, hcode, (List.append_assoc _ _ _).symm⟩

/-- Nothing is left once it is defined. -/
theorem define (names : List String) (values : List Expr) :
    Performs known [Stmt.define names values] [] (Expr.actsList known values) :=
  ⟨_, Stmt.runAll?_define names values, List.append_nil _⟩

end Performs

/-- What an operand becomes: the code and what is left of it run what it ran, and a name that it
calls is still called. -/
structure Keeps (known : List String) (e e' : Expr) (code : List Stmt) : Prop where
  called : e'.called known = e.called known
  runs : Performs known code (e'.acts known) (e.acts known)

variable {cx : Context} {first : NameSupply} {frame : Frame}

theorem Keeps.refl (known : List String) (e : Expr) : Keeps known e e [] := ⟨rfl, .nothing _⟩

/-- A made-up name is not known. -/
theorem called_name {x : String} (h : x ∉ first.used) :
    (Expr.name x).called first.used = none := by
  simp [Expr.called, Expr.name, Expr.asName?, h]

/-- What runs something is no name, so calling it calls no known name. -/
theorem called_of_not_isPure {e : Expr} (h : e.isPure = false) (known : List String) :
    e.called known = none := by
  cases e with
  | ident => cases h
  | _ => rfl

/-! ### Operands -/

/-- A spilled operand runs in the emitted code, and nothing of it is left to run. -/
theorem spill_keeps (e : Expr) : (spill e).EnsuresFrom first fun e' code =>
    Keeps first.used e e' code ∧ e'.acts first.used = [] := by
  refine .ite (fun hpure => .pure ⟨.refl _ e, Expr.acts_eq_nil e hpure⟩) fun hpure => ?_
  refine (ensuresFrom_fresh "Tmp").after fun name hname => ?_
  refine (ensuresFrom_record _).after fun _ _ => ensuresFrom_emit_pure ⟨⟨?_, ?_⟩, rfl⟩
  · rw [called_name hname.1, called_of_not_isPure (by simpa using hpure)]
  · have hdefine : Performs first.used [Stmt.define [name] [e]] [] (Expr.actsList first.used [e]) :=
      .define [name] [e]
    rw [Expr.actsList, Expr.actsList, List.append_nil] at hdefine
    exact hdefine

/-- What is emitted only for a `try`. -/
theorem withoutCode {α : Type} {p : Pass α} {Q : α → List Stmt → Prop} {later : Bool}
    (hp : p.EnsuresFrom first Q) (hcode : ∀ s, later = false → (p s).code = []) :
    p.EnsuresFrom first fun a code => Q a code ∧ (later = false → code = []) :=
  hp.and (R := fun _ code => later = false → code = []) hcode

/-- An operand that is lowered, and spilled if a `try` stands after it. -/
theorem operand_keeps {β : Type} {e : Expr} {f : Expr → Pass β} {S : β → List Stmt → Prop}
    (later : Bool) (he : (lowerExpr cx frame e).EnsuresFrom first (Keeps first.used e))
    (hf : ∀ e' before, Keeps first.used e e' before → (later = true → e'.acts first.used = []) →
      ((e.containsAttempt || later) = false → before = []) →
      (f e').EnsuresFrom first fun b code => S b (before ++ code)) :
    (lowerExpr cx frame e >>= fun e' => spillBefore later e' >>= f).EnsuresFrom first S := by
  refine (withoutCode he (lowerExpr_code_eq_nil cx frame e)).bind fun e' before hbefore => ?_
  obtain ⟨hkeeps, hcode⟩ := hbefore
  cases later with
  | false => exact hf e' before hkeeps (by simp) (by simpa using hcode)
  | true =>
    refine (spill_keeps e').bind fun e'' kept hkept => ?_
    obtain ⟨⟨hcalled, hruns⟩, hnil⟩ := hkept
    have hboth : Keeps first.used e e'' (before ++ kept) :=
      ⟨hcalled.trans hkeeps.called, hkeeps.runs.trans hruns⟩
    refine (hf e'' _ hboth (fun _ => hnil) (by simp)).mono fun b code h => ?_
    rw [← List.append_assoc]
    exact h

/-- Either what is left of an operand runs nothing, or nothing is hoisted after it. -/
theorem left_or_code {later : Bool} {left : List Act} {code : List Stmt}
    (hleft : later = true → left = []) (hcode : later = false → code = []) :
    left = [] ∨ code = [] := by
  cases later with
  | false => exact .inr (hcode rfl)
  | true => exact .inl (hleft rfl)

/-! ### Hoisted calls -/

/-- A hoisted call runs what the `try` ran, and its values are made-up names. -/
theorem hoist_keeps (keep : Bool) {attempt : Attempt}
    (h : attempt.lowered.EnsuresFrom first (Keeps first.used attempt.operand)) :
    (hoist cx frame keep attempt).EnsuresFrom first fun values? code =>
      ∃ names : List String, values? = some (names.map Expr.name) ∧
        (∀ x ∈ names, x ∉ first.used) ∧
        Performs first.used code [] (attempt.operand.acts first.used) := by
  refine .ite (fun _ => ensuresFrom_report_bind _ _) fun _ => ?_
  split
  case h_2 => exact ensuresFrom_report_bind _ _
  case h_1 =>
    split
    case h_2 => exact ensuresFrom_report_bind _ _
    case h_1 sig _ =>
      refine .ite (fun _ => ?_) fun _ => ensuresFrom_report_bind _ _
      refine h.bind fun call before hcall => ?_
      refine (ensuresFrom_freshList _).after fun names hnames => ?_
      refine (ensuresFrom_fresh "Err").after fun error _ => ?_
      refine (ensuresFrom_emit (Q := fun _ code => code = _) rfl).bind fun _ emitted hemitted => ?_
      refine (ensuresFrom_record _).after fun _ _ => .pure ⟨names, rfl, ?_, ?_⟩
      · intro x hx
        obtain ⟨_, -, hoffers⟩ := hnames.2 x hx
        exact hoffers.1
      · -- The call is captured, and the check of its error runs nothing.
        have hcapture : Performs first.used
            [Stmt.define ((if keep then names else sig.values.map fun _ => "_") ++ [error]) [call]]
            [] (Expr.actsList first.used [call]) := .define _ _
        rw [Expr.actsList, Expr.actsList, List.append_nil] at hcapture
        have hcheck : Performs first.used [Stmt.onlyIf (Expr.isNotNil error)
            [frame.earlyReturn (Expr.name error) attempt.span]] [] [] := ⟨[], rfl, rfl⟩
        have hall := hcall.runs.trans (hcapture.trans hcheck)
        rw [hemitted, List.append_nil]
        exact hall

/-- A hoisted `try` runs its call in the emitted code. -/
theorem attemptValue_keeps {attempt : Attempt}
    (h : attempt.lowered.EnsuresFrom first (Keeps first.used attempt.operand)) :
    (attemptValue cx frame attempt).EnsuresFrom first
      (Keeps first.used (.attempt attempt.operand attempt.span)) := by
  refine (hoist_keeps true h).bind ?_
  rintro _ before ⟨names, rfl, hnames, hruns⟩
  match names, hnames with
  | [x], hnames =>
    refine .pure ⟨called_name (hnames x List.mem_cons_self), ?_⟩
    rw [List.append_nil]
    exact hruns
  | [], _ => exact ensuresFrom_report_bind _ _
  | _ :: _ :: _, _ => exact ensuresFrom_report_bind _ _

/-- The values of a `try` for several targets. -/
theorem attemptValues_keeps (expected : Nat) {attempt : Attempt}
    (h : attempt.lowered.EnsuresFrom first (Keeps first.used attempt.operand)) :
    (attemptValues cx frame expected attempt).EnsuresFrom first fun values code =>
      Performs first.used code (Expr.actsList first.used values)
        (attempt.operand.acts first.used) := by
  refine (hoist_keeps true h).bind ?_
  rintro _ before ⟨names, rfl, -, hruns⟩
  refine .ite (fun _ => .pure ?_) fun _ => ensuresFrom_report_bind _ _
  rw [Expr.actsList_names, List.append_nil]
  exact hruns

/-! ### The pass over expressions -/

mutual
/-- Calls and receives keep their order, by recursion on the tree. -/
theorem lowerExpr_keeps : ∀ e : Expr, e.isStraight = true →
    (lowerExpr cx frame e).EnsuresFrom first (Keeps first.used e)
  | .ident _ _, _ => .pure (.refl _ _)
  | .lit _ _, _ => .pure (.refl _ _)
  | .ofType _ _, _ => .pure (.refl _ _)
  | .attempt operand _, h => by
    have hoperand := Expr.isStraight_parts h operand List.mem_cons_self
    exact attemptValue_keeps (lowerExpr_keeps operand hoperand)
  | .binary op left right _, h => by
    have hparts := Expr.isStraight_parts h
    have hleft := lowerExpr_keeps left (hparts left (by simp [Expr.parts]))
    have hright := lowerExpr_keeps right (hparts right (by simp [Expr.parts]))
    rw [lowerExpr, Expr.not_isShortCircuit h, Bool.false_and, if_neg Bool.false_ne_true]
    refine operand_keeps _ hleft fun left' before hleft hnil _ => ?_
    refine (withoutCode hright (lowerExpr_code_eq_nil cx frame right)).bind
      fun right' after hright => .pure ⟨rfl, ?_⟩
    rw [List.append_nil]
    exact hleft.runs.both hright.1.runs (left_or_code hnil hright.2)
  | .call callee args span, h => by
    have hparts := Expr.isStraight_parts h
    have hcallee := lowerExpr_keeps callee (hparts callee (by simp [Expr.parts]))
    have hargs := lowerOrdered_keeps args fun arg harg => hparts arg (by simp [Expr.parts, harg])
    refine operand_keeps _ hcallee fun callee' before hcallee hnil _ => ?_
    refine (withoutCode hargs (lowerOrdered_code_eq_nil cx frame args)).bind
      fun args' after hargs => .pure ⟨rfl, ?_⟩
    obtain ⟨⟨hlength, hargs⟩, hcode⟩ := hargs
    rw [List.append_nil, Expr.acts, Expr.acts, hcallee.called, hlength]
    exact (hcallee.runs.both hargs (left_or_code hnil hcode)).act _
  | .unary op operand span, h => by
    have hoperand := lowerExpr_keeps operand (Expr.isStraight_parts h operand List.mem_cons_self)
    refine hoperand.bind fun operand' before hoperand => .pure ⟨rfl, ?_⟩
    rw [List.append_nil]
    cases op with
    | receive => exact hoperand.runs.act _
    | _ => exact hoperand.runs
  | .selector base _ _, h => by
    have hbase := lowerExpr_keeps base (Expr.isStraight_parts h base List.mem_cons_self)
    refine hbase.bind fun base' before hbase => .pure ⟨rfl, ?_⟩
    rw [List.append_nil]
    exact hbase.runs
  | .index base index _, h => by
    have hparts := Expr.isStraight_parts h
    have hbase := lowerExpr_keeps base (hparts base (by simp [Expr.parts]))
    have hindex := lowerExpr_keeps index (hparts index (by simp [Expr.parts]))
    refine operand_keeps _ hbase fun base' before hbase hnil _ => ?_
    refine (withoutCode hindex (lowerExpr_code_eq_nil cx frame index)).bind
      fun index' after hindex => .pure ⟨rfl, ?_⟩
    rw [List.append_nil]
    exact hbase.runs.both hindex.1.runs (left_or_code hnil hindex.2)
  | .composite _ elements _, h => by
    have helements := lowerElements_keeps elements (Expr.isStraight_parts h)
    refine helements.bind fun elements' before helements => .pure ⟨rfl, ?_⟩
    rw [List.append_nil]
    exact helements
  | .template segments _, h => by
    have hsegments := lowerSegments_keeps segments (Expr.isStraight_parts h)
    refine hsegments.bind fun segments' before hsegments => .pure ⟨rfl, ?_⟩
    rw [List.append_nil]
    exact hsegments
  | .func _ returns body span, _ => by
    -- A function literal runs nothing here, whatever its body is lowered to.
    refine (literalShape_ensures returns span).after fun shape _ => ?_
    refine (lowerBlock_lowers (Frame.isFree_ofShape _ shape) body).after fun body' _ => ?_
    exact .pure ⟨rfl, .nothing _⟩

theorem lowerOrdered_keeps : ∀ es : List Expr, (∀ e ∈ es, e.isStraight = true) →
    (lowerOrdered cx frame es).EnsuresFrom first fun es' code => es'.length = es.length ∧
      Performs first.used code (Expr.actsList first.used es') (Expr.actsList first.used es)
  | [], _ => .pure ⟨rfl, .nothing _⟩
  | e :: rest, h => by
    obtain ⟨he, hrest⟩ := List.forall_mem_cons.mp h
    refine operand_keeps _ (lowerExpr_keeps e he) fun e' before he hnil _ => ?_
    refine (withoutCode (lowerOrdered_keeps rest hrest)
      (lowerOrdered_code_eq_nil cx frame rest)).bind fun rest' after hrest => ?_
    obtain ⟨⟨hlength, hrest⟩, hcode⟩ := hrest
    refine .pure ⟨congrArg (· + 1) hlength, ?_⟩
    rw [List.append_nil]
    exact he.runs.both hrest (left_or_code hnil hcode)

theorem lowerElements_keeps : ∀ elements : List Element,
    (∀ e ∈ elements.flatMap Element.parts, e.isStraight = true) →
    (lowerElements cx frame elements).EnsuresFrom first fun elements' code =>
      Performs first.used code (Element.actsList first.used elements')
        (Element.actsList first.used elements)
  | [], _ => .pure (.nothing _)
  | ⟨none, value⟩ :: rest, h => by
    obtain ⟨hvalue, hrest⟩ := List.forall_mem_append.mp h
    have hvalue := lowerExpr_keeps value (hvalue value (by simp [Element.parts]))
    refine operand_keeps _ hvalue fun value' before hvalue hnil _ => ?_
    refine (withoutCode (lowerElements_keeps rest hrest)
      (lowerElements_code_eq_nil cx frame rest)).bind fun rest' after hrest => .pure ?_
    rw [List.append_nil]
    exact hvalue.runs.both hrest.1 (left_or_code hnil hrest.2)
  | ⟨some key, value⟩ :: rest, h => by
    obtain ⟨hown, hrest⟩ := List.forall_mem_append.mp h
    have hkey := lowerExpr_keeps key (hown key (by simp [Element.parts]))
    have hvalue := lowerExpr_keeps value (hown value (by simp [Element.parts]))
    refine operand_keeps _ hkey fun key' before hkey hnilKey _ => ?_
    refine operand_keeps _ hvalue fun value' middle hvalue hnilValue hcodeValue => ?_
    refine (withoutCode (lowerElements_keeps rest hrest)
      (lowerElements_code_eq_nil cx frame rest)).bind fun rest' after hrest => .pure ?_
    -- Nothing is hoisted after the key unless a `try` stands in the value or in a later element.
    have hcode : (value.containsAttempt || rest.any Element.containsAttempt) = false →
        middle ++ after = [] := by
      intro hnone
      rw [hcodeValue hnone, hrest.2 (Bool.or_eq_false_iff.mp hnone).2]
      rfl
    have htail := hvalue.runs.both hrest.1 (left_or_code hnilValue hrest.2)
    have hall := hkey.runs.both htail (left_or_code hnilKey hcode)
    rw [List.append_nil, Element.actsList, Element.actsList, Expr.actsOption, Expr.actsOption,
      List.append_assoc, List.append_assoc]
    exact hall

theorem lowerSegments_keeps : ∀ segments : List Segment,
    (∀ e ∈ segments.filterMap Segment.embedded?, e.isStraight = true) →
    (lowerSegments cx frame segments).EnsuresFrom first fun segments' code =>
      Performs first.used code (Segment.actsList first.used segments')
        (Segment.actsList first.used segments)
  | [], _ => .pure (.nothing _)
  | .text _ :: rest, h => by
    refine (lowerSegments_keeps rest h).bind fun rest' after hrest => .pure ?_
    rw [List.append_nil]
    exact hrest
  | .embed value _ _ :: rest, h => by
    obtain ⟨hvalue, hrest⟩ := List.forall_mem_cons.mp h
    refine operand_keeps _ (lowerExpr_keeps value hvalue) fun value' before hvalue hnil _ => ?_
    refine (withoutCode (lowerSegments_keeps rest hrest)
      (lowerSegments_code_eq_nil cx frame rest)).bind fun rest' after hrest => .pure ?_
    rw [List.append_nil]
    exact hvalue.runs.both hrest.1 (left_or_code hnil hrest.2)
end

/-! ### Targets and values of an assignment -/

/-- Pinning keeps the order of what the operands of a place run. -/
theorem pin_keeps (e : Expr) : (pin e).EnsuresFrom first (Keeps first.used e) := by
  cases e with
  | index base index span =>
    refine (spill_keeps base).bind fun base' before hbase => ?_
    refine (spill_keeps index).bind fun index' after hindex => .pure ⟨rfl, ?_⟩
    rw [List.append_nil]
    exact hbase.1.runs.both hindex.1.runs (.inl hbase.2)
  | selector base field span =>
    refine (spill_keeps base).bind fun base' before hbase => .pure ⟨rfl, ?_⟩
    rw [List.append_nil]
    exact hbase.1.runs
  | unary op operand span =>
    cases op with
    | deref =>
      refine (spill_keeps operand).bind fun operand' before hoperand => .pure ⟨rfl, ?_⟩
      rw [List.append_nil]
      exact hoperand.1.runs
    | _ => exact .pure (.refl _ _)
  | _ => exact .pure (.refl _ _)

/-- A single target. If it is one that runs nothing once it is lowered, nothing is left of it. -/
theorem target_keeps (spilling : Bool) {e : Expr} (he : e.isStraight = true) :
    (lowerTarget cx frame spilling e).EnsuresFrom first fun e' code =>
      Keeps first.used e e' code ∧
        (e.leavesEffect = false ∨ (spilling = true ∧ e.isPinned = true) →
          e'.acts first.used = []) := by
  have hkeeps : (lowerTarget cx frame spilling e).EnsuresFrom first (Keeps first.used e) := by
    refine (lowerExpr_keeps e he).bind fun e' before hbefore => ?_
    cases spilling with
    | false =>
      refine .pure ?_
      rw [List.append_nil]
      exact hbefore
    | true =>
      exact (pin_keeps e').mono fun e'' code h =>
        ⟨h.called.trans hbefore.called, hbefore.runs.trans h.runs⟩
  refine hkeeps.and (R := fun e' _ => _ → e'.acts first.used = []) fun s h => ?_
  refine Expr.acts_eq_nil _ ?_
  rcases h with hleaves | ⟨rfl, hpinned⟩
  · have hpure := isPure_lowerExpr cx frame e s hleaves
    cases spilling <;> simp [lowerTarget, pin_of_isPure, hpure]
  · exact isPure_pin (isPinned_lowerExpr cx hpinned s) _

/-- Targets that are evaluated in order keep the order of what they run. -/
theorem lowerTargets_keeps (spilling : Bool) : ∀ targets : List Expr,
    (∀ e ∈ targets, e.isStraight = true) → targetsInOrder spilling targets = true →
    (lowerTargets cx frame spilling targets).EnsuresFrom first fun targets' code =>
      Performs first.used code (Expr.actsList first.used targets')
          (Expr.actsList first.used targets) ∧
        (spilling = true → Expr.actsList first.used targets' = [])
  | [], _, _ => .pure ⟨.nothing _, fun _ => rfl⟩
  | e :: rest, h, horder => by
    obtain ⟨he, hrest⟩ := List.forall_mem_cons.mp h
    have hrest := lowerTargets_keeps spilling rest hrest (by grind [targetsInOrder])
    rw [lowerTargets_cons]
    refine (target_keeps spilling he).bind fun e' before hbefore => ?_
    have hnone : ∀ s, (spilling || rest.any Expr.containsAttempt) = false →
        (lowerTargets cx frame spilling rest s).code = [] := by
      intro s hlater
      obtain ⟨rfl, hattempts⟩ := Bool.or_eq_false_iff.mp hlater
      exact lowerTargets_code_eq_nil cx frame hattempts s
    refine (withoutCode hrest hnone).bind fun rest' after hafter => .pure ?_
    obtain ⟨hkeeps, hnil⟩ := hbefore
    obtain ⟨⟨hperforms, hnilRest⟩, hcode⟩ := hafter
    -- The targets are in order: where code follows, nothing is left of the first one.
    have hleft : (spilling || rest.any Expr.containsAttempt) = true → e'.acts first.used = [] :=
      fun hlater => hnil (by grind [targetsInOrder])
    rw [List.append_nil]
    refine ⟨hkeeps.runs.both hperforms (left_or_code hleft hcode), fun hspilling => ?_⟩
    rw [Expr.actsList, hleft (by rw [hspilling, Bool.true_or]), hnilRest hspilling]
    rfl

/-- Assigned values keep the order of what they run. -/
theorem assigned_keeps (targets : Nat) (values : List Expr)
    (h : ∀ e ∈ values, e.isStraight = true) :
    (assigned cx frame targets values (soleAttempt cx frame values)
      (lowerOrdered cx frame values)).EnsuresFrom first fun values' code =>
        Performs first.used code (Expr.actsList first.used values')
          (Expr.actsList first.used values) := by
  have hordered : (lowerOrdered cx frame values).EnsuresFrom first fun values' code =>
      Performs first.used code (Expr.actsList first.used values')
        (Expr.actsList first.used values) :=
    (lowerOrdered_keeps values h).mono fun values' code h => h.2
  rcases soleAttempt_cases cx frame values with ⟨operand, span, rfl⟩ | ⟨hnone, -⟩
  · refine .ite (fun _ => ?_) fun _ => hordered
    have hoperand := Expr.isStraight_parts (h _ List.mem_cons_self) operand List.mem_cons_self
    refine (attemptValues_keeps targets (lowerExpr_keeps operand hoperand)).mono
      fun values' code h => ?_
    rw [Expr.actsList, Expr.actsList, List.append_nil]
    exact h
  · rw [hnone]
    exact (checkCapture_ensures targets values).bind fun _ before hbefore => by
      obtain ⟨rfl, -⟩ := hbefore
      exact hordered

/-- **Assignments run their operands in order.** An assignment without a short-circuit operator
that is lowered without a fault, to any number of targets and with any number of values, runs what
it ran, in the same order: the operands of the targets, then those of the values. Only the targets
have to be in order, see `targetsInOrder`. -/
theorem run_lowerStmt_assign (cx : Context) (frame : Frame) (supply : NameSupply)
    (targets : List Expr) (op : AssignOp) (values : List Expr) (span : Span)
    (hfaults : (lowerStmt cx frame (.assign targets op values span) supply).notes.faults = [])
    (hstraight : ∀ e ∈ targets ++ values, e.isStraight = true)
    (horder : targetsInOrder (values.any Expr.containsAttempt) targets = true) :
    Stmt.runAll? supply.used (lowerStmt cx frame (.assign targets op values span) supply).code =
      (Stmt.assign targets op values span).run? supply.used := by
  obtain ⟨htargets, hvalues⟩ := List.forall_mem_append.mp hstraight
  have hall : (lowerStmt cx frame (.assign targets op values span)).EnsuresFrom supply
      fun _ code => Performs supply.used code []
        (Expr.actsList supply.used targets ++ Expr.actsList supply.used values) := by
    refine (lowerTargets_keeps _ targets htargets horder).bind fun targets' before hbefore => ?_
    refine (withoutCode (assigned_keeps targets'.length values hvalues)
      (fun s hnone => assigned_code_eq_nil cx frame _ hnone s)).bind fun values' after hafter => ?_
    obtain ⟨hbefore, hnil⟩ := hbefore
    obtain ⟨hafter, hcode⟩ := hafter
    -- What is left of the assignment runs last.
    have hresidual : Performs supply.used [.assign targets' op values' span] []
        (Expr.actsList supply.used targets' ++ Expr.actsList supply.used values') :=
      ⟨_, by simp [Stmt.runAll?, Stmt.run?], List.append_nil _⟩
    refine ensuresFrom_emit ?_
    rw [← List.append_assoc]
    exact (hbefore.both hafter (left_or_code hnil hcode)).trans hresidual
  obtain ⟨-, acts, hcode, hacts⟩ := hall supply (.refl supply) hfaults
  rw [hcode, ← List.append_nil acts, hacts]
  rfl

/-- A context in which `load() Result<int>` is known. -/
def loading : Context := { Scope.ofFunction loadTable crossed with settings := {} }

/-- The frame of a function `name() Result<()>`. -/
def fallible (name : String) : Frame := .ofShape loadTable name (failing name).returns

/-- `*f(), a[g()] = h(<-a), try load()` -/
theorem run_lowerStmt_assign_pinned :
    let targets : List Expr := [.unary .deref (.apply (.name "f") []) .nowhere,
      .index (.name "a") (.apply (.name "g") []) .nowhere]
    let values : List Expr :=
      [.apply (.name "h") [.unary .receive (.name "a") .nowhere], tryLoad]
    let supply := NameSupply.avoiding "gx" ["f", "a", "g", "h", "load"]
    let lowered := lowerStmt loading (fallible "pinned") (.assign targets .store values .nowhere)
      supply
    lowered.notes.faults = [] ∧ (∀ e ∈ targets ++ values, e.isStraight = true) ∧
      targetsInOrder (values.any Expr.containsAttempt) targets = true ∧
      Stmt.runAll? supply.used lowered.code =
        some [.call (some "f") 0 .nowhere, .call (some "g") 0 .nowhere, .receive .nowhere,
          .call (some "h") 1 .nowhere, .call (some "load") 0 .nowhere] := by
  intro targets values supply lowered
  have hfaults : lowered.notes.faults = [] := rfl
  have hstraight : ∀ e ∈ targets ++ values, e.isStraight = true := by decide
  have horder : targetsInOrder (values.any Expr.containsAttempt) targets = true := rfl
  refine ⟨hfaults, hstraight, horder, ?_⟩
  have hrun := run_lowerStmt_assign loading (fallible "pinned") supply targets .store values
    .nowhere hfaults hstraight horder
  rw [hrun]
  decide

/-- `a[f()], b[try load()] = 1, 2` calls `load` before `f`. -/
theorem run_lowerStmt_assign_crossed :
    let assign : Stmt := .assign [.index (.name "a") (.apply (.name "f") []) .nowhere,
      .index (.name "b") tryLoad .nowhere] .store [.int 1, .int 2] .nowhere
    let supply := NameSupply.avoiding "gx" ["a", "f", "b", "load"]
    let lowered := lowerStmt loading (fallible "crossed") assign supply
    lowered.notes.faults = [] ∧
      assign.run? supply.used =
        some [.call (some "f") 0 .nowhere, .call (some "load") 0 .nowhere] ∧
      Stmt.runAll? supply.used lowered.code =
        some [.call (some "load") 0 .nowhere, .call (some "f") 0 .nowhere] := by
  decide

end Propagation

end Desugar
