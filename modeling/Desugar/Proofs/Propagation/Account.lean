import Mathlib.Tactic.Abel
import Desugar.Proofs.Pass.Supply
import Desugar.Proofs.Propagation.Order
import Desugar.Proofs.Propagation.Trade
import Desugar.Proofs.Template.Expand

/-!
# Error propagation keeps its books

Whatever the pass moves, and wherever it moves it to, what it makes of the code of a function is a
trade: the sites of the source are given away, and the marked nodes of the lowered code are what
comes in return. Each function of the pass gets a lemma, the ones without recursion with the results
of their parts as arguments, and the induction over the syntax puts them together.

- `Lowers`: the lowering of some sites, as a condition on a pass.
- `lowerExpr_lowers` and the theorems beside it: one for each function of the pass.
- `trade_of_lowerFunction`: the trade for a function.
-/

namespace Desugar

/-- The marked nodes of emitted code. -/
def Stmt.marks (code : List Stmt) : Multiset Node := Site.marked (Stmt.sitesList code)

section Marks

@[simp] theorem Stmt.marks_nil : Stmt.marks [] = 0 := rfl

@[simp] theorem Stmt.marks_cons (stmt : Stmt) (rest : List Stmt) :
    Stmt.marks (stmt :: rest) = Site.marked stmt.sites + Stmt.marks rest := by
  simp [Stmt.marks, Stmt.sitesList]

@[simp] theorem Stmt.marks_append (before after : List Stmt) :
    Stmt.marks (before ++ after) = Stmt.marks before + Stmt.marks after := by
  simp [Stmt.marks, Stmt.sitesList_append]

/-- The last statement of some code is split off. -/
theorem Stmt.marks_getLast? (code : List Stmt) :
    Stmt.marks code.dropLast + Site.marked (Stmt.sitesOption code.getLast?) = Stmt.marks code := by
  cases hlast : code.getLast? with
  | none => simp_all [Stmt.sitesOption]
  | some stmt =>
    obtain ⟨before, rfl⟩ := List.getLast?_eq_some_iff.mp hlast
    simp [Stmt.sitesOption]

@[simp] theorem marked_exprs_append (before after : List Expr) :
    Site.marked (Expr.sitesList (before ++ after)) =
      Site.marked (Expr.sitesList before) + Site.marked (Expr.sitesList after) := by
  simp [Expr.sitesList_append]

@[simp] theorem marked_inserted (code : List Stmt) :
    Site.marked (Block.inserted code).sites = Stmt.marks code := rfl

@[simp] theorem marked_name (x : String) : Site.marked (Expr.name x).sites = 0 := rfl

@[simp] theorem marked_names (xs : List String) :
    Site.marked (Expr.sitesList (xs.map Expr.name)) = 0 := by
  induction xs with
  | nil => rfl
  | cons x xs ih => simp [Expr.sitesList, ih]

@[simp] theorem marked_define (names : List String) (values : List Expr) :
    Site.marked (Stmt.define names values).sites = Site.marked (Expr.sitesList values) := by
  simp [Stmt.define, Stmt.sites, Node.isMarked]

@[simp] theorem marked_store (name : String) (value : Expr) :
    Site.marked (Stmt.store name value).sites = Site.marked value.sites := by
  simp [Stmt.store, Stmt.sites, Expr.sitesList, Node.isMarked]

@[simp] theorem marked_onlyIf (condition : Expr) (body : List Stmt) :
    Site.marked (Stmt.onlyIf condition body).sites =
      Site.marked condition.sites + Stmt.marks body := by
  simp [Stmt.onlyIf, Stmt.sites, If.sites, Else.sites, Node.isMarked]

end Marks

namespace Propagation

open Pass

variable {cx : Context} {first : NameSupply} {frame : Frame} {α : Type}

/-! ### Inserted values -/

@[simp] theorem marked_earlyReturn (error : Expr) (span : Span) :
    Site.marked (frame.earlyReturn error span).sites =
      {.stmt (frame.earlyReturn error span)} + (Site.marked (Expr.sitesList frame.zeros) +
        Site.marked error.sites) := by
  simp [Frame.earlyReturn, Stmt.sites, Expr.sitesList, Node.isMarked]

@[simp] theorem marked_reference (path : String) :
    Site.marked (Path.reference path).sites = 0 := by
  have hmembers (parts : List (List Char)) (base : Expr) (hbase : Site.marked base.sites = 0) :
      Site.marked (parts.foldl (fun base part => base.member (String.ofList part)) base).sites =
        0 := by
    induction parts generalizing base with
    | nil => exact hbase
    | cons part rest ih => exact ih _ (by simp [Expr.member, Expr.sites, Node.isMarked, hbase])
  unfold Path.reference
  split
  · rfl
  · exact hmembers _ _ rfl

/-- The zero values of a frame cost nothing: of marked nodes they have only calls of `new`. -/
def Frame.IsFree (cx : Context) (first : NameSupply) (frame : Frame) : Prop :=
  Trade cx first frame 0 (Site.marked (Expr.sitesList frame.zeros))

/-- A zero value comes for nothing, since all that it may run is `new`. -/
theorem trade_zero (isStruct : String → Bool) (t : Ty) :
    Trade cx first frame 0 (Site.marked (t.zero isStruct).sites) := by
  unfold Ty.zero
  split
  · exact .none
  · exact .none
  · split
    · exact .none
    · split
      · exact .none
      · split
        · exact .none
        · rename_i name _ _ _ _ _
          show Trade cx first frame 0
            {.expr (.call (Expr.name "new") [.ofType (.named name) .nowhere] .nowhere)}
          exact .helper (List.mem_cons_self ..)
  · exact .none

/-- The zero values of every frame cost nothing. -/
theorem Frame.isFree_ofShape (name : String) (shape : ReturnShape) :
    (Frame.ofShape cx.table name shape).IsFree cx first := by
  have hzeros (ts : List Ty) (frame : Frame) : Trade cx first frame 0
      (Site.marked (Expr.sitesList (ts.map (Ty.zero cx.table.isStruct)))) := by
    induction ts with
    | nil => exact .none
    | cons t rest ih =>
      exact Trade.congr ((trade_zero cx.table.isStruct t).both ih) rfl (by simp [Expr.sitesList])
  exact hzeros shape.values _

/-! ### Operands -/

/-- Without a fault, the value satisfies the condition, and the marked nodes of the value and of the
emitted code come in return for the sites. -/
abbrev Lowers (cx : Context) (first : NameSupply) (frame : Frame) (p : Pass α)
    (sites : Multiset Site) (own : α → List Site) (Q : α → Prop) : Prop :=
  p.EnsuresFrom first fun a code =>
    Q a ∧ Trade cx first frame sites (Site.marked (own a) + Stmt.marks code)

/-- The operand is kept or, if it runs something, replaced by a made-up name. -/
def Spilled (first : NameSupply) (e e' : Expr) : Prop :=
  e' = e ∨ e.isPure = false ∧ ∃ x, e' = Expr.name x ∧ MakesUp first x

/-- A spilled operand runs in the emitted code or, if it runs nothing, stays; no marked node is
added or lost. -/
theorem spill_ensures (e : Expr) : (spill e).EnsuresFrom first fun e' code =>
    Spilled first e e' ∧ Site.marked e'.sites + Stmt.marks code = Site.marked e.sites := by
  refine .ite (fun _ => .pure ⟨.inl rfl, by simp⟩) fun hpure => ?_
  refine (ensuresFrom_fresh "Tmp").after fun name hname => ?_
  refine (ensuresFrom_record _).after fun _ _ => ensuresFrom_emit_pure ⟨?_, ?_⟩
  · exact .inr ⟨by simpa using hpure, name, rfl, makesUp_of_offers hname (by decide)⟩
  · simp [Expr.sitesList]

/-- An operand is spilled only if something follows that is hoisted. -/
theorem spillBefore_ensures (later : Bool) (e : Expr) :
    (spillBefore later e).EnsuresFrom first fun e' code =>
      (Spilled first e e' ∧ (later = false → e' = e)) ∧
        Site.marked e'.sites + Stmt.marks code = Site.marked e.sites := by
  cases later with
  | false => exact .pure ⟨⟨.inl rfl, fun _ => rfl⟩, by simp⟩
  | true => exact (spill_ensures e).mono fun _ _ h => ⟨⟨h.1, nofun⟩, h.2⟩

/-- Pinning the operands of a place moves marked nodes to the emitted code, and neither adds nor
loses any. -/
theorem pin_ensures (e : Expr) : (pin e).EnsuresFrom first fun e' code =>
    Site.marked e'.sites + Stmt.marks code = Site.marked e.sites := by
  unfold pin
  split
  · refine (spill_ensures _).bind fun base before hbase => ?_
    refine (spill_ensures _).bind fun index after hindex => .pure ?_
    simp [Expr.sites, Node.isMarked, ← hbase.2, ← hindex.2]
    abel
  · refine (spill_ensures _).bind fun base before hbase => .pure ?_
    simp [Expr.sites, Node.isMarked, ← hbase.2]
  · refine (spill_ensures _).bind fun operand before hoperand => .pure ?_
    simp [Expr.sites, Node.isMarked, ← hoperand.2]
  · exact .pure (by simp)

/-- Only names and members of names are functions of the unit. -/
theorem isPure_of_resolve? {e : Expr} {sig : Signature} (h : cx.resolve? e = some sig) :
    e.isPure = true := by
  cases e with
  | ident => rfl
  | selector base =>
    cases base with
    | ident => rfl
    | _ => cases h
  | _ => cases h

namespace Residual

variable {e e' e'' : Expr}

protected theorem refl (e : Expr) : Residual cx first e e where
  resolved _ _ := rfl
  ident _ _ _ := rfl
  named _ _ h := .inl h

/-- What is left of an operand may be spilled later. -/
theorem spilled (h : Residual cx first e e') (hspilled : Spilled first e' e'') :
    Residual cx first e e'' := by
  rcases hspilled with rfl | ⟨hpure, x, rfl, hx⟩
  · exact h
  · -- What runs something is no name and no function of the unit.
    have hne : e.isPure = true → e' ≠ e := by
      rintro he rfl
      rw [he] at hpure
      cases hpure
    refine ⟨fun sig hsig => ?_, fun y span hy => ?_, fun y span hy => ?_⟩
    · exact absurd (h.resolved sig hsig) (hne (isPure_of_resolve? hsig))
    · exact absurd (h.ident y span hy) (hne (hy ▸ rfl))
    · cases hy
      exact .inr hx

end Residual

/-- What is left of an expression: besides, a call that may fail is left as one. -/
structure Outcome (cx : Context) (first : NameSupply) (e e' : Expr) : Prop
    extends Residual cx first e e' where
  fails : ∀ sig, cx.Fails e sig → cx.Fails e' sig

namespace Outcome

variable {e e' : Expr}

protected theorem refl (e : Expr) : Outcome cx first e e := ⟨.refl e, fun _ => id⟩

/-- An expression that is no name, no member and no call is not replaced by a name of the source. -/
theorem of_other (hresolve : cx.resolve? e = none) (hident : ∀ x span, e ≠ .ident x span)
    (hcall : ∀ callee args span, e ≠ .call callee args span)
    (hnamed : ∀ x span, e' = .ident x span → MakesUp first x) : Outcome cx first e e' where
  resolved sig hsig := by
    rw [hresolve] at hsig
    cases hsig
  ident x span h := absurd h (hident x span)
  named x span h := .inr (hnamed x span h)
  fails := by
    rintro sig ⟨callee, args, span, h, -⟩
    exact absurd h (hcall callee args span)

/-- What is left of a selector is a selector of what is left of its base. -/
theorem selector {base base' : Expr} (h : Residual cx first base base') (field : String)
    (span : Span) : Outcome cx first (.selector base field span) (.selector base' field span) where
  resolved sig hsig := by
    cases base with
    | ident x span => rw [h.ident x span rfl]
    | _ => cases hsig
  ident := nofun
  named := nofun
  fails := by rintro sig ⟨_, _, _, ⟨⟩, _⟩

/-- What is left of a call is a call of what is left of its callee. -/
theorem call {callee callee' : Expr} (h : Residual cx first callee callee')
    (args args' : List Expr) (span : Span) :
    Outcome cx first (.call callee args span) (.call callee' args' span) where
  resolved := nofun
  ident := nofun
  named := nofun
  fails := by
    rintro sig ⟨_, _, _, ⟨⟩, hsig, hresult⟩
    exact ⟨callee', args', span, rfl, h.resolved sig hsig ▸ hsig, hresult⟩

end Outcome

/-! ### Hoisted calls -/

/-- A `try` is traded for an early return, whether its position allows several values or its call
has a single one. -/
theorem hoist_ensures (hframe : frame.IsFree cx first) (keep : Bool) {attempt : Attempt}
    {sites : Multiset Site} {Q : Expr → Prop}
    (h : Lowers cx first frame attempt.lowered sites Expr.sites Q) :
    (hoist cx frame keep attempt).EnsuresFrom first fun values? code =>
      ∃ (sig : Signature) (names : List String), values? = some (names.map Expr.name) ∧
        (keep = true → names.length = sig.values.length) ∧ (∀ x ∈ names, MakesUp first x) ∧
        ∀ spread, (spread = false → sig.values.length = 1) →
          Trade cx first frame (⟨.expr (.attempt attempt.operand attempt.span), spread⟩ ::ₘ sites)
            (Stmt.marks code) := by
  refine .ite (fun _ => ensuresFrom_report_bind _ _) fun hresult => ?_
  have hresult : frame.isResult = true := by simpa using hresult
  split
  case h_2 => exact ensuresFrom_report_bind _ _
  case h_1 callee args span hoperand =>
    split
    case h_2 => exact ensuresFrom_report_bind _ _
    case h_1 sig hsig =>
      refine .ite (fun hfails => ?_) fun _ => ensuresFrom_report_bind _ _
      refine h.bind fun call before hcall => ?_
      obtain ⟨-, hcall⟩ := hcall
      refine (ensuresFrom_freshList _).after fun names hnames => ?_
      obtain ⟨hlength, hnames⟩ := hnames
      refine (ensuresFrom_fresh "Err").after fun error herror => ?_
      refine (ensuresFrom_emit (Q := fun _ code => code = _) rfl).bind fun _ emitted hemitted => ?_
      refine (ensuresFrom_record _).after fun _ _ => .pure ?_
      refine ⟨sig, names, rfl, ?_, ?_, ?_⟩
      · rintro rfl
        rw [hlength, if_pos rfl, List.length_map]
      · intro x hx
        obtain ⟨role, hrole, hoffers⟩ := hnames x hx
        refine makesUp_of_offers hoffers ?_
        cases keep with
        | false => cases hrole
        | true =>
          obtain ⟨-, -, rfl⟩ := List.mem_map.mp hrole
          decide
      · intro spread hspread
        have hattempt : Trade cx first frame
            {⟨.expr (.attempt attempt.operand attempt.span), spread⟩}
            {.stmt (frame.earlyReturn (.name error) attempt.span)} :=
          .attempt hresult ⟨callee, args, span, hoperand, hsig, hfails⟩ hspread
        refine ((hattempt.both hframe).both hcall).congr ?_ ?_
        · rw [add_zero, Multiset.singleton_add]
        · subst hemitted
          simp [Expr.sitesList, Expr.isNotNil, Expr.sites, Expr.nil, Node.isMarked]
          abel

/-- A hoisted `try` is traded for a check of its error, and a made-up name takes its place. -/
theorem attemptValue_lowers (hframe : frame.IsFree cx first) {attempt : Attempt}
    {sites : Multiset Site} {Q : Expr → Prop}
    (h : Lowers cx first frame attempt.lowered sites Expr.sites Q) (spread : Bool) :
    Lowers cx first frame (attemptValue cx frame attempt)
      (⟨.expr (.attempt attempt.operand attempt.span), spread⟩ ::ₘ sites) Expr.sites
      fun e => ∃ x, e = Expr.name x ∧ MakesUp first x := by
  refine (hoist_ensures hframe true h).bind ?_
  rintro _ before ⟨sig, names, rfl, hlength, hnames, htrade⟩
  match names, hlength, hnames with
  | [x], hlength, hnames =>
    refine .pure ⟨⟨x, rfl, hnames x (by simp)⟩, ?_⟩
    simpa using htrade spread fun _ => (hlength rfl).symm
  | [], _, _ => exact ensuresFrom_report_bind _ _
  | _ :: _ :: _, _, _ => exact ensuresFrom_report_bind _ _

/-- A `try` that stands alone may have several values, and gives as many as are expected. -/
theorem attemptValues_lowers (hframe : frame.IsFree cx first) (expected : Nat) {attempt : Attempt}
    {sites : Multiset Site} {Q : Expr → Prop}
    (h : Lowers cx first frame attempt.lowered sites Expr.sites Q) :
    Lowers cx first frame (attemptValues cx frame expected attempt)
      (⟨.expr (.attempt attempt.operand attempt.span), true⟩ ::ₘ sites) Expr.sitesList
      fun values => values.length = expected := by
  refine (hoist_ensures hframe true h).bind ?_
  rintro _ before ⟨sig, names, rfl, -, -, htrade⟩
  refine .ite (fun hlength => .pure ⟨hlength, ?_⟩) fun _ => ensuresFrom_report_bind _ _
  simpa using htrade true nofun

/-! ### Values of statements -/

/-- A call is taken for one that may fail if its function returns a result. -/
theorem failing?_eq_some {e : Expr} {sig : Signature} :
    failing? cx e = some sig ↔ cx.Fails e sig := by
  cases e with
  | call callee args span =>
    rw [failing?, Option.filter_eq_some_iff]
    constructor
    · rintro ⟨hsig, hresult⟩
      exact ⟨callee, args, span, rfl, hsig, hresult⟩
    · rintro ⟨_, _, _, ⟨⟩, hsig, hresult⟩
      exact ⟨hsig, hresult⟩
  | _ => simp [failing?, Scope.Fails]

/-- An accepted statement does not drop the error of a call. -/
theorem checkDiscarded_ensures (e : Expr) : (checkDiscarded cx e).EnsuresFrom first
    fun _ code => code = [] ∧ ∀ sig, ¬cx.Fails e sig := by
  unfold checkDiscarded
  split
  · exact ensuresFrom_report _ _
  · rename_i hnone
    refine .pure ⟨rfl, fun sig hfails => ?_⟩
    rw [failing?_eq_some.mpr hfails] at hnone
    cases hnone

/-- An accepted assignment has a target for the error of a call. -/
theorem checkCapture_ensures (targets : Nat) (values : List Expr) :
    (checkCapture cx targets values).EnsuresFrom first fun _ code => code = [] ∧
      ∀ value sig, values = [value] → cx.Fails value sig → sig.slotCount ≤ targets := by
  unfold checkCapture
  split
  · rename_i value
    split
    · rename_i sig hsome
      refine .ite (fun _ => ensuresFrom_report _ _) fun htargets => .pure ⟨rfl, ?_⟩
      rintro _ sig' ⟨⟩ hfails
      rw [failing?_eq_some.mpr hfails] at hsome
      cases hsome
      omega
    · rename_i hnone
      refine .pure ⟨rfl, ?_⟩
      rintro _ sig ⟨⟩ hfails
      rw [failing?_eq_some.mpr hfails] at hnone
      cases hnone
  · rename_i hother
    exact .pure ⟨rfl, fun value _ hvalues => absurd hvalues (hother value)⟩

/-- Sibling operands that are lowered: there is one value for each, and a single call that may fail
is left as one. -/
structure Siblings (cx : Context) (es values : List Expr) : Prop where
  length : values.length = es.length
  fails : ∀ e sig, es = [e] → cx.Fails e sig → ∃ value, values = [value] ∧ cx.Fails value sig

section Values

variable {values : List Expr} {sole : Option Attempt} {ordered : Pass (List Expr)}

/-- A `try` that stands alone among the values, and what is known of its operand. -/
abbrev IsSole (cx : Context) (first : NameSupply) (frame : Frame) (values : List Expr)
    (sole : Option Attempt) : Prop :=
  ∀ attempt ∈ sole, values = [.attempt attempt.operand attempt.span] ∧
    Lowers cx first frame attempt.lowered attempt.operand.sites Expr.sites fun _ => True

/-- A `try` as the only value stands where its values may spread. -/
theorem sites_attempt (operand : Expr) (span : Span) (allowed : Bool) :
    Site.spreadIf allowed (Expr.sitesList [.attempt operand span]) =
      ⟨.expr (.attempt operand span), allowed⟩ :: operand.sites := by
  simp [Expr.sitesList, Expr.sites, Site.spreadIf]

/-- The nodes of assigned values are traded, and the error of a call has a target. -/
theorem assigned_lowers (hframe : frame.IsFree cx first) (targets : Nat)
    (hsole : IsSole cx first frame values sole)
    (hordered : ∀ spread, Lowers cx first frame ordered
      (Site.spreadIf spread (Expr.sitesList values)) Expr.sitesList (Siblings cx values)) :
    Lowers cx first frame (assigned cx frame targets values sole ordered)
      (Site.spreadIf (Site.isSole targets values) (Expr.sitesList values)) Expr.sitesList
      fun _ => ∀ value sig, values = [value] → cx.Fails value sig → sig.slotCount ≤ targets := by
  cases sole with
  | none =>
    refine (checkCapture_ensures targets values).after fun _ hcapture => ?_
    exact (hordered _).mono fun _ _ h => ⟨hcapture, h.2⟩
  | some attempt =>
    obtain ⟨rfl, hoperand⟩ := hsole attempt rfl
    -- A `try` is no call, so nothing is left to be captured.
    have hcapture : ∀ value sig, [.attempt attempt.operand attempt.span] = [value] →
        cx.Fails value sig → sig.slotCount ≤ targets := by
      rintro _ sig ⟨⟩ ⟨_, _, _, ⟨⟩, _⟩
    refine .ite (fun htargets => ?_) fun _ => (hordered _).mono fun _ _ h => ⟨hcapture, h.2⟩
    rw [show Site.isSole targets [.attempt attempt.operand attempt.span] = true by
      simp [Site.isSole, htargets], sites_attempt]
    exact (attemptValues_lowers hframe targets hoperand).mono fun _ _ h => ⟨hcapture, h.2⟩

/-- The nodes of returned values are traded, and a frame that returns a result gets its values and
an error. -/
theorem returned_lowers (hframe : frame.IsFree cx first) (span : Span)
    (hsole : IsSole cx first frame values sole)
    (hordered : ∀ spread, Lowers cx first frame ordered
      (Site.spreadIf spread (Expr.sitesList values)) Expr.sitesList (Siblings cx values)) :
    Lowers cx first frame (returned cx frame values span sole ordered)
      (Site.spreadIf (values.length == 1) (Expr.sitesList values)) Expr.sitesList
      (frame.Returns cx.toScope) := by
  have hnil (values : List Expr) : Site.marked (Expr.sitesList (values ++ [Expr.nil])) =
      Site.marked (Expr.sitesList values) := by
    simp [Expr.sitesList, Expr.nil, Expr.sites, Node.isMarked]
  cases sole with
  | some attempt =>
    obtain ⟨rfl, hoperand⟩ := hsole attempt rfl
    rw [List.length_singleton, beq_self_eq_true, sites_attempt]
    refine (attemptValues_lowers hframe _ hoperand).bind fun values before ⟨hlength, htrade⟩ => ?_
    refine .pure ⟨fun _ => .inl (by simp [hlength]), ?_⟩
    simpa [hnil] using htrade
  | none =>
    refine .ite (fun hforwards => ?_) fun _ => .ite (fun hcount => ?_) fun _ => ?_
    · refine (hordered _).mono fun values' _ h => ⟨fun _ => .inr ?_, h.2⟩
      match values, hforwards with
      | [value], hforwards =>
        cases hfailing : failing? cx value with
        | none => simp [forwards, hfailing] at hforwards
        | some sig =>
          obtain ⟨call, hvalues, hfails⟩ := h.1.fails value sig rfl (failing?_eq_some.mp hfailing)
          exact ⟨call, sig, hvalues, hfails, by simpa [forwards, hfailing] using hforwards⟩
    · refine (hordered (values.length == 1)).bind fun values' before ⟨hsiblings, htrade⟩ => ?_
      refine .pure ⟨fun _ => .inl (by simp [hsiblings.length, hcount]), ?_⟩
      simpa [hnil] using htrade
    · refine .ite (fun hcount => ?_) fun _ => ensuresFrom_report_bind _ _
      exact (hordered _).mono fun _ _ h => ⟨fun _ => .inl (by rw [h.1.length, hcount]), h.2⟩

end Values

/-- The arguments of a format are the embedded expressions. -/
theorem marked_format {segments : List Segment} {text : List Char} {args : List Expr}
    (h : Template.format segments = .ok (text, args)) :
    Site.marked (Expr.sitesList args) = Site.marked (Segment.sitesList segments) := by
  induction segments generalizing text args with
  | nil =>
    cases h
    rfl
  | cons segment rest ih =>
    cases segment with
    | text value =>
      obtain ⟨text', hrest, -⟩ := Template.format_text_eq_ok.mp h
      exact ih hrest
    | embed value verb span =>
      obtain ⟨-, text', args', hrest, rfl, -⟩ := Template.format_embed_eq_ok.mp h
      simp [Expr.sitesList, Segment.sitesList, ih hrest]

/-- Making an error of what is thrown costs a call of a helper at most. -/
theorem errorValue_ensures (frame : Frame) (e : Expr) :
    (errorValue cx.settings e).EnsuresFrom first fun error code => code = [] ∧
      ∃ nodes, Trade cx first frame 0 nodes ∧
        Site.marked error.sites = Site.marked e.sites + nodes := by
  unfold errorValue
  split
  · rename_i text span
    refine (ensuresFrom_require _).after fun _ _ => .pure ⟨rfl, ?_⟩
    let call : Expr := Path.call cx.settings.errorConstructor [.lit (.string text) span]
    refine ⟨{.expr call}, .helper (by simp [helpers]), ?_⟩
    simp [call, Path.call, Expr.apply, Expr.sites, Expr.sitesList, Node.isMarked]
  · rename_i segments span
    split
    · rename_i expanded hexpand
      obtain ⟨⟨text, args⟩, hformat, hexpand⟩ := bind_eq_ok hexpand
      cases hexpand
      refine (ensuresFrom_require _).after fun _ _ => .pure ⟨rfl, ?_⟩
      let call : Expr := .call (Path.reference cx.settings.errorFormatFunction)
        (.lit (.string (String.ofList text)) span :: args) span
      refine ⟨{.expr call}, .helper (by simp [helpers]), ?_⟩
      simp [call, Expr.sites, Expr.sitesList, Node.isMarked, marked_format hformat, add_comm]
    · intro supply _ hfaults
      cases hfaults
  · exact .pure ⟨rfl, 0, .none, (add_zero _).symm⟩

/-! ### Parts of statements -/

/-- A condition without a `try` needs no code, so none is dropped. -/
theorem loopCondition_lowers {test : Expr} {Q : Expr → Prop}
    (h : Lowers cx first frame (lowerExpr cx frame test) test.sites Expr.sites Q) :
    Lowers cx first frame (loopCondition test (lowerExpr cx frame test)) test.sites Expr.sites
      fun _ => ∀ again ∈ test.sites, again.node.isAttempt = false := by
  refine .ite (fun _ => ensuresFrom_report_bind _ _) fun hattempt => ?_
  have hattempt : test.containsAttempt = false := by simpa using hattempt
  refine (h.and (R := fun _ code => code = []) fun supply =>
    lowerExpr_code_eq_nil cx frame test supply hattempt).collect.after ?_
  rintro ⟨test', _⟩ ⟨⟨-, htrade⟩, rfl⟩
  exact .pure ⟨Expr.isAttempt_sites hattempt, htrade⟩

/-- Starting a call trades the same nodes as the call. -/
theorem launched_lowers (launch : Launch) {call : Expr} {sites : Multiset Site} {Q : Expr → Prop}
    {lowered : Pass Expr} (h : Lowers cx first frame lowered sites Expr.sites Q) :
    Lowers cx first frame (launched launch call lowered) sites Expr.sites Q := by
  unfold launched
  split
  · exact ensuresFrom_report_bind _ _
  · exact h

/-- An accepted function literal has a return clause with a shape. -/
theorem literalShape_ensures (returns : Option Ty) (span : Span) :
    (literalShape cx returns span).EnsuresFrom first fun shape code => code = [] ∧
      ReturnShape.ofClause cx.settings.optionPolicy returns = .ok shape := by
  unfold literalShape
  split
  · rename_i hshape
    exact .pure ⟨rfl, hshape⟩
  · exact ensuresFrom_report_bind _ _

/-! ### The pass over a body

The induction is on the code. The frame changes at function literals, so it is not fixed, and an
expression may stand where several values are allowed or not. -/

mutual
/-- The nodes of an expression are traded for those of the emitted code and of what is left of it,
by recursion on the tree. -/
theorem lowerExpr_lowers {frame : Frame} (hframe : frame.IsFree cx first) :
    ∀ (e : Expr) (spread : Bool), Lowers cx first frame (lowerExpr cx frame e)
      (Site.spreadIf spread e.sites) Expr.sites (Outcome cx first e)
  | .ident name span, spread => .pure ⟨.refl _, .plain rfl trivial⟩
  | .lit value span, spread => .pure ⟨.refl _, .plain rfl trivial⟩
  | .ofType ty span, spread => .pure ⟨.refl _, .plain rfl trivial⟩
  | .attempt operand span, spread => by
    refine (attemptValue_lowers hframe (lowerExpr_lowers hframe operand false) spread).mono ?_
    rintro _ code ⟨⟨x, rfl, hx⟩, htrade⟩
    refine ⟨.of_other rfl nofun nofun ?_, ?_⟩
    · rintro _ _ ⟨⟩
      exact hx
    · simpa [Expr.sites] using htrade
  | .binary op left right span, spread => by
    refine .ite (fun _ => ?_) fun _ => ?_
    · refine (lowerExpr_lowers hframe left false).bind fun left' before ⟨_, hleft⟩ => ?_
      refine (ensuresFrom_fresh "Cond").after fun name hname => ?_
      refine (ensuresFrom_emit (Q := fun _ code => code = _) rfl).bind fun _ kept hkept => ?_
      refine (lowerExpr_lowers hframe right false).collect.after
        fun ⟨right', guarded⟩ ⟨_, hright⟩ => ?_
      refine (ensuresFrom_record _).after fun _ _ => ensuresFrom_emit_pure ⟨?_, ?_⟩
      · refine .of_other rfl nofun nofun ?_
        rintro _ _ ⟨⟩
        exact makesUp_of_offers hname (by decide)
      · subst hkept
        refine ((hleft.both hright).cons_plain ⟨.expr (.binary op left right span), spread⟩ rfl
          trivial).congr (by simp [Expr.sites]) ?_
        -- The guard is a name or its negation, which costs nothing.
        split
        · simp [Expr.sitesList, Expr.sites, Node.isMarked]
          abel
        · simp [Expr.sitesList]
          abel
    · refine (lowerExpr_lowers hframe left false).bind fun left' before ⟨_, hleft⟩ => ?_
      refine (spillBefore_ensures _ left').bind fun left'' kept ⟨_, hkept⟩ => ?_
      refine (lowerExpr_lowers hframe right false).bind fun right' after ⟨_, hright⟩ => ?_
      refine .pure ⟨.of_other rfl nofun nofun nofun, ?_⟩
      rw [← hkept] at hleft
      refine ((hleft.both hright).cons_plain ⟨.expr (.binary op left right span), spread⟩ rfl
        trivial).congr (by simp [Expr.sites]) ?_
      simp [Expr.sites, Node.isMarked]
      abel
  | .call callee args span, spread => by
    refine (lowerExpr_lowers hframe callee false).bind fun callee' before ⟨hres, hcallee⟩ => ?_
    refine (spillBefore_ensures _ callee').bind fun callee'' kept ⟨⟨hspilled, _⟩, hkept⟩ => ?_
    refine (lowerOrdered_lowers hframe args false).bind fun args' after ⟨_, hargs⟩ => ?_
    have hres : Residual cx first callee callee'' := hres.toResidual.spilled hspilled
    refine .pure ⟨.call hres args args' span, ?_⟩
    rw [← hkept] at hcallee
    have hcall : Trade cx first frame {⟨.expr (.call callee args span), spread⟩}
        {.expr (.call callee'' args' span)} := .call hres
    refine (hcall.both (hcallee.both hargs)).congr (by simp [Expr.sites]) ?_
    simp [Expr.sites, Node.isMarked]
    abel
  | .unary op operand span, spread => by
    refine (lowerExpr_lowers hframe operand false).bind fun operand' before ⟨_, hoperand⟩ => ?_
    refine .pure ⟨.of_other rfl nofun nofun nofun, ?_⟩
    by_cases hop : op = .receive
    · subst hop
      have hreceive : Trade cx first frame {⟨.expr (.unary .receive operand span), spread⟩}
          {.expr (.unary .receive operand' span)} := .receive
      refine (hreceive.both hoperand).congr (by simp [Expr.sites]) ?_
      simp [Expr.sites, Node.isMarked]
    · have hplain := Node.isMarked_unary hop
      refine (hoperand.cons_plain ⟨.expr (.unary op operand span), spread⟩ (hplain operand span)
        trivial).congr (by simp [Expr.sites]) ?_
      simp [Expr.sites, hplain]
  | .selector base field span, spread => by
    refine (lowerExpr_lowers hframe base false).bind fun base' before ⟨hres, hbase⟩ => ?_
    refine .pure ⟨.selector hres.toResidual field span, ?_⟩
    refine (hbase.cons_plain ⟨.expr (.selector base field span), spread⟩ rfl
      trivial).congr (by simp [Expr.sites]) ?_
    simp [Expr.sites, Node.isMarked]
  | .index base index span, spread => by
    refine (lowerExpr_lowers hframe base false).bind fun base' before ⟨_, hbase⟩ => ?_
    refine (spillBefore_ensures _ base').bind fun base'' kept ⟨_, hkept⟩ => ?_
    refine (lowerExpr_lowers hframe index false).bind fun index' after ⟨_, hindex⟩ => ?_
    refine .pure ⟨.of_other rfl nofun nofun nofun, ?_⟩
    rw [← hkept] at hbase
    refine ((hbase.both hindex).cons_plain ⟨.expr (.index base index span), spread⟩ rfl
      trivial).congr (by simp [Expr.sites]) ?_
    simp [Expr.sites, Node.isMarked]
    abel
  | .composite ty elements span, spread => by
    refine (lowerElements_lowers hframe elements).bind fun elements' before ⟨_, helements⟩ => ?_
    refine .pure ⟨.of_other rfl nofun nofun nofun, ?_⟩
    refine (helements.cons_plain ⟨.expr (.composite ty elements span), spread⟩ rfl
      trivial).congr (by simp [Expr.sites]) ?_
    simp [Expr.sites, Node.isMarked]
  | .template segments span, spread => by
    refine (lowerSegments_lowers hframe segments).bind fun segments' before ⟨_, hsegments⟩ => ?_
    refine .pure ⟨.of_other rfl nofun nofun nofun, ?_⟩
    refine (hsegments.cons_plain ⟨.expr (.template segments span), spread⟩ rfl
      trivial).congr (by simp [Expr.sites]) ?_
    simp [Expr.sites, Node.isMarked]
  | .func params returns body span, spread => by
    -- The body belongs to the frame of the literal, not to the one around it.
    refine (literalShape_ensures returns span).after fun shape hshape => ?_
    refine (lowerBlock_lowers (Frame.isFree_ofShape _ _) body).after fun body' hbody => ?_
    refine .pure ⟨.of_other rfl nofun nofun nofun, ?_⟩
    have hliteral : Trade cx first frame {⟨.expr (.func params returns body span), spread⟩}
        {.expr (.func params shape.clause body' span)} := .literal hshape hbody
    exact hliteral.congr (by simp [Expr.sites]) (by simp [Expr.sites, Node.isMarked])

theorem lowerOrdered_lowers {frame : Frame} (hframe : frame.IsFree cx first) :
    ∀ (es : List Expr) (spread : Bool), Lowers cx first frame (lowerOrdered cx frame es)
      (Site.spreadIf spread (Expr.sitesList es)) Expr.sitesList (Siblings cx es)
  | [], _ => .pure ⟨⟨rfl, nofun⟩, .none⟩
  | e :: rest, spread => by
    refine (lowerExpr_lowers hframe e spread).bind fun e' before ⟨hout, he⟩ => ?_
    refine (spillBefore_ensures _ e').bind fun e'' kept ⟨⟨_, hlast⟩, hkept⟩ => ?_
    refine (lowerOrdered_lowers hframe rest false).bind fun rest' after ⟨hsiblings, hrest⟩ => ?_
    refine .pure ⟨⟨congrArg (· + 1) hsiblings.length, ?_⟩, ?_⟩
    · -- Nothing stands after a single operand, so it is not spilled.
      rintro _ sig ⟨⟩ hfails
      obtain rfl := List.eq_nil_of_length_eq_zero hsiblings.length
      exact ⟨e'', rfl, hlast rfl ▸ hout.fails sig hfails⟩
    · rw [← hkept] at he
      refine (he.both hrest).congr (by simp [Expr.sitesList]) ?_
      simp [Expr.sitesList]
      abel

theorem lowerTargets_lowers {frame : Frame} (hframe : frame.IsFree cx first) (spilling : Bool) :
    ∀ es : List Expr, Lowers cx first frame (lowerTargets cx frame spilling es)
      (Expr.sitesList es) Expr.sitesList fun es' => es'.length = es.length
  | [] => .pure ⟨rfl, .none⟩
  | e :: rest => by
    refine (lowerExpr_lowers hframe e false).bind fun e' before ⟨_, he⟩ => ?_
    -- Pinned or not, the target is followed by the others.
    have hfinish (e'' : Expr) (kept : List Stmt)
        (hkept : Site.marked e''.sites + Stmt.marks kept = Site.marked e'.sites) :
        (lowerTargets cx frame spilling rest >>= fun rest' => pure (e'' :: rest')).EnsuresFrom first
          fun es' code => es'.length = (e :: rest).length ∧
            Trade cx first frame (Expr.sitesList (e :: rest))
              (Site.marked (Expr.sitesList es') + Stmt.marks (before ++ (kept ++ code))) := by
      refine (lowerTargets_lowers hframe spilling rest).bind fun rest' after ⟨hlength, hrest⟩ => ?_
      refine .pure ⟨congrArg (· + 1) hlength, ?_⟩
      rw [← hkept] at he
      refine (he.both hrest).congr (by simp [Expr.sitesList]) ?_
      simp [Expr.sitesList]
      abel
    exact EnsuresFrom.ite (fun _ => (pin_ensures e').bind hfinish)
      fun _ => hfinish e' [] (by simp)

theorem soleAttempt_isSole {frame : Frame} (hframe : frame.IsFree cx first) :
    ∀ es : List Expr, IsSole cx first frame es (soleAttempt cx frame es)
  | [] => nofun
  | [e] => by
    cases e with
    | attempt operand span =>
      rintro _ ⟨⟩
      have hoperand := lowerExpr_lowers hframe operand false
      rw [Site.spreadIf_false] at hoperand
      exact ⟨rfl, hoperand.mono fun _ _ h => ⟨trivial, h.2⟩⟩
    | _ => nofun
  | e :: _ :: _ => by cases e <;> nofun

theorem lowerElements_lowers {frame : Frame} (hframe : frame.IsFree cx first) :
    ∀ elements : List Element, Lowers cx first frame (lowerElements cx frame elements)
      (Element.sitesList elements) Element.sitesList fun _ => True
  | [] => .pure ⟨trivial, .none⟩
  | ⟨none, value⟩ :: rest => by
    refine (lowerExpr_lowers hframe value false).bind fun value' before ⟨_, hvalue⟩ => ?_
    refine (spillBefore_ensures _ value').bind fun value'' kept ⟨_, hkept⟩ => ?_
    refine (lowerElements_lowers hframe rest).bind fun rest' after ⟨_, hrest⟩ => ?_
    refine .pure ⟨trivial, ?_⟩
    rw [← hkept] at hvalue
    refine (hvalue.both hrest).congr (by simp [Element.sitesList, Expr.sitesOption]) ?_
    simp [Element.sitesList, Expr.sitesOption]
    abel
  | ⟨some key, value⟩ :: rest => by
    refine (lowerExpr_lowers hframe key false).bind fun key' first' ⟨_, hkey⟩ => ?_
    refine (spillBefore_ensures _ key').bind fun key'' keptKey ⟨_, hkeptKey⟩ => ?_
    refine (lowerExpr_lowers hframe value false).bind fun value' before ⟨_, hvalue⟩ => ?_
    refine (spillBefore_ensures _ value').bind fun value'' kept ⟨_, hkept⟩ => ?_
    refine (lowerElements_lowers hframe rest).bind fun rest' after ⟨_, hrest⟩ => ?_
    refine .pure ⟨trivial, ?_⟩
    rw [← hkeptKey] at hkey
    rw [← hkept] at hvalue
    refine (hkey.both (hvalue.both hrest)).congr
      (by simp [Element.sitesList, Expr.sitesOption]) ?_
    simp [Element.sitesList, Expr.sitesOption]
    abel

theorem lowerSegments_lowers {frame : Frame} (hframe : frame.IsFree cx first) :
    ∀ segments : List Segment, Lowers cx first frame (lowerSegments cx frame segments)
      (Segment.sitesList segments) Segment.sitesList fun _ => True
  | [] => .pure ⟨trivial, .none⟩
  | .text _ :: rest => by
    refine (lowerSegments_lowers hframe rest).bind fun rest' after ⟨_, hrest⟩ => .pure ⟨trivial, ?_⟩
    rw [List.append_nil]
    exact hrest
  | .embed value _ _ :: rest => by
    refine (lowerExpr_lowers hframe value false).bind fun value' before ⟨_, hvalue⟩ => ?_
    refine (spillBefore_ensures _ value').bind fun value'' kept ⟨_, hkept⟩ => ?_
    refine (lowerSegments_lowers hframe rest).bind fun rest' after ⟨_, hrest⟩ => ?_
    refine .pure ⟨trivial, ?_⟩
    rw [← hkept] at hvalue
    refine (hvalue.both hrest).congr (by simp [Segment.sitesList]) ?_
    simp [Segment.sitesList]
    abel

theorem lowerBlock_lowers {frame : Frame} (hframe : frame.IsFree cx first) :
    ∀ block : Block, (lowerBlock cx frame block).EnsuresFrom first fun block' code => code = [] ∧
      Trade cx first frame block.sites (Site.marked block'.sites)
  | ⟨stmts, _⟩ => by
    refine (lowerStmts_lowers hframe stmts).collect.after ?_
    rintro ⟨_, stmts'⟩ htrade
    exact .pure ⟨rfl, htrade⟩

/-- The code that takes the place of some statements. -/
theorem lowerStmts_lowers {frame : Frame} (hframe : frame.IsFree cx first) :
    ∀ stmts : List Stmt, (lowerStmts cx frame stmts).EnsuresFrom first fun _ code =>
      Trade cx first frame (Stmt.sitesList stmts) (Stmt.marks code)
  | [] => .pure .none
  | stmt :: rest => by
    refine (lowerStmt_lowers hframe stmt).bind fun _ before hstmt => ?_
    refine (lowerStmts_lowers hframe rest).mono fun _ after hrest => ?_
    exact (hstmt.both hrest).congr (by simp [Stmt.sitesList]) (by simp)

theorem lowerStmt_lowers {frame : Frame} (hframe : frame.IsFree cx first) :
    ∀ stmt : Stmt, (lowerStmt cx frame stmt).EnsuresFrom first fun _ code =>
      Trade cx first frame stmt.sites (Stmt.marks code)
  | .expr value => by
    have hlowered := lowerExpr_lowers hframe value true
    cases value with
    | attempt operand span =>
      have hoperand := lowerExpr_lowers hframe operand false
      rw [Site.spreadIf_false] at hoperand
      refine (hoist_ensures hframe false hoperand).bind ?_
      rintro _ before ⟨sig, names, -, -, -, htrade⟩
      refine .pure ?_
      refine ((htrade true nofun).cons_plain ⟨.stmt (.expr (.attempt operand span)), false⟩ rfl
        ?_).congr (by simp [Stmt.sites, Expr.sites]) (by simp)
      rintro sig ⟨_, _, _, ⟨⟩, _⟩
    | _ =>
      refine (checkDiscarded_ensures _).after fun _ hdiscarded => ?_
      refine hlowered.bind fun value' before ⟨_, hvalue⟩ => ensuresFrom_emit ?_
      refine (hvalue.cons_plain ⟨.stmt (.expr _), false⟩ rfl hdiscarded).congr rfl ?_
      simp [Stmt.sites, Node.isMarked]
      abel
  | .assign targets op values span => by
    refine (lowerTargets_lowers hframe _ targets).bind fun targets' before ⟨hlength, htargets⟩ => ?_
    refine (assigned_lowers hframe _ (soleAttempt_isSole hframe values)
      (lowerOrdered_lowers hframe values)).bind fun values' after ⟨hcapture, hvalues⟩ => ?_
    refine ensuresFrom_emit ?_
    rw [hlength] at hcapture hvalues
    refine ((htargets.both hvalues).cons_plain ⟨.stmt (.assign targets op values span), false⟩ rfl
      (Site.isDisciplined_assign hcapture)).congr (by simp [Stmt.sites]) ?_
    simp [Stmt.sites, Node.isMarked]
    abel
  | .var names ty values span => by
    refine (assigned_lowers hframe _ (soleAttempt_isSole hframe values)
      (lowerOrdered_lowers hframe values)).bind fun values' after ⟨hcapture, hvalues⟩ => ?_
    refine ensuresFrom_emit ?_
    refine (hvalues.cons_plain ⟨.stmt (.var names ty values span), false⟩ rfl
      (Site.isDisciplined_var hcapture)).congr (by simp [Stmt.sites]) ?_
    simp [Stmt.sites, Node.isMarked]
    abel
  | .ret values span => by
    have hfinish (values' : List Expr) (before : List Stmt) (h : frame.Returns cx.toScope values' ∧
        Trade cx first frame (Site.spreadIf (values.length == 1) (Expr.sitesList values))
          (Site.marked (Expr.sitesList values') + Stmt.marks before)) :
        (Pass.emit [.ret values' span]).EnsuresFrom first fun _ code =>
          Trade cx first frame (Stmt.ret values span).sites (Stmt.marks (before ++ code)) := by
      have hret : Trade cx first frame {⟨.stmt (.ret values span), false⟩}
          {.stmt (.ret values' span)} := .ret h.1
      refine ensuresFrom_emit ((hret.both h.2).congr (by simp [Stmt.sites]) ?_)
      simp [Stmt.sites, Node.isMarked]
      abel
    refine EnsuresFrom.ite (fun _ => ?_) fun hresult => ?_
    · exact (returned_lowers hframe span (soleAttempt_isSole hframe values)
        (lowerOrdered_lowers hframe values)).bind hfinish
    · refine (lowerOrdered_lowers hframe values (values.length == 1)).bind
        fun values' before h => hfinish values' before ⟨fun hframe => absurd hframe hresult, h.2⟩
  | .throw value span => by
    refine .ite (fun hresult => ?_) fun _ => ensuresFrom_report _ _
    refine (lowerExpr_lowers hframe value false).bind fun value' before ⟨_, hvalue⟩ => ?_
    refine (errorValue_ensures frame value').after fun error ⟨nodes, hnodes, herror⟩ => ?_
    have hthrow : Trade cx first frame {⟨.stmt (.throw value span), false⟩}
        {.stmt (frame.earlyReturn error span)} := .throw hresult
    refine ensuresFrom_emit ((hthrow.both (hframe.both (hvalue.both hnodes))).congr
      (by simp [Stmt.sites]) ?_)
    simp [herror]
    abel
  | .cond branch => by
    refine (lowerIf_lowers hframe branch).bind fun branch' before ⟨_, hbranch⟩ => ?_
    refine ensuresFrom_emit ((hbranch.cons_plain ⟨.stmt (.cond branch), false⟩ rfl trivial).congr
      (by simp [Stmt.sites]) ?_)
    simp [Stmt.sites, Node.isMarked]
    abel
  | .loop clause body span => by
    refine (lowerClause_lowers hframe clause).collect.after
      fun ⟨clause', before⟩ ⟨hrepeated, hclause⟩ => ?_
    refine (lowerBlock_lowers hframe body).after fun body' hbody => ?_
    have hloop : Trade cx first frame (Stmt.loop clause body span).sites
        (Stmt.marks (before ++ [.loop clause' body' span])) := by
      refine ((hclause.both hbody).cons_plain ⟨.stmt (.loop clause body span), false⟩ rfl
        hrepeated).congr (by simp [Stmt.sites]) ?_
      simp [Stmt.sites, Node.isMarked]
      abel
    -- With a block around them or not, the same statements are emitted.
    refine .ite (fun _ => ensuresFrom_emit (hloop.congr rfl ?_)) fun _ => ensuresFrom_emit hloop
    simp [Stmt.sites, Node.isMarked]
  | .bind names call span => by
    refine (launched_lowers _ (lowerExpr_lowers hframe call false)).bind
      fun call' before ⟨_, hcall⟩ => ?_
    refine ensuresFrom_emit ((hcall.cons_plain ⟨.stmt (.bind names call span), false⟩ rfl
      trivial).congr (by simp [Stmt.sites]) ?_)
    simp [Stmt.sites, Node.isMarked]
    abel
  | .go call span => by
    refine (checkDiscarded_ensures call).after fun _ hdiscarded => ?_
    refine (launched_lowers _ (lowerExpr_lowers hframe call false)).bind
      fun call' before ⟨_, hcall⟩ => ?_
    refine ensuresFrom_emit ((hcall.cons_plain ⟨.stmt (.go call span), false⟩ rfl
      hdiscarded).congr (by simp [Stmt.sites]) ?_)
    simp [Stmt.sites, Node.isMarked]
    abel
  | .defer call span => by
    refine (checkDiscarded_ensures call).after fun _ hdiscarded => ?_
    refine (launched_lowers _ (lowerExpr_lowers hframe call false)).bind
      fun call' before ⟨_, hcall⟩ => ?_
    refine ensuresFrom_emit ((hcall.cons_plain ⟨.stmt (.defer call span), false⟩ rfl
      hdiscarded).congr (by simp [Stmt.sites]) ?_)
    simp [Stmt.sites, Node.isMarked]
    abel
  | .block body => by
    refine (lowerBlock_lowers hframe body).after fun body' hbody => ?_
    refine ensuresFrom_emit ((hbody.cons_plain ⟨.stmt (.block body), false⟩ rfl trivial).congr
      (by simp [Stmt.sites]) ?_)
    simp [Stmt.sites, Node.isMarked]
  | .breakLoop _ => ensuresFrom_emit (.plain rfl trivial)
  | .continueLoop _ => ensuresFrom_emit (.plain rfl trivial)

theorem lowerIf_lowers {frame : Frame} (hframe : frame.IsFree cx first) :
    ∀ branch : If, Lowers cx first frame (lowerIf cx frame branch) branch.sites If.sites
      fun _ => True
  | ⟨condition, thenBlock, otherwise, _⟩ => by
    refine (lowerExpr_lowers hframe condition false).bind
      fun condition' before ⟨_, hcondition⟩ => ?_
    refine (lowerBlock_lowers hframe thenBlock).after fun thenBlock' hthen => ?_
    refine (lowerElse_lowers hframe otherwise).after fun otherwise' hotherwise => ?_
    refine .pure ⟨trivial, ((hcondition.both hthen).both hotherwise).congr (by simp [If.sites]) ?_⟩
    simp [If.sites]
    abel

theorem lowerElse_lowers {frame : Frame} (hframe : frame.IsFree cx first) :
    ∀ otherwise : Else, (lowerElse cx frame otherwise).EnsuresFrom first fun otherwise' code =>
      code = [] ∧ Trade cx first frame otherwise.sites (Site.marked otherwise'.sites)
  | .none => .pure ⟨rfl, .none⟩
  | .block body => by
    refine (lowerBlock_lowers hframe body).after fun body' hbody => .pure ⟨rfl, hbody⟩
  | .elseIf branch => by
    refine (lowerIf_lowers hframe branch).collect.after fun ⟨branch', before⟩ ⟨_, hbranch⟩ => ?_
    refine .ite (fun hempty => .pure ⟨rfl, hbranch.congr rfl ?_⟩)
      fun _ => .pure ⟨rfl, hbranch.congr rfl ?_⟩
    · simp [Else.sites, List.isEmpty_iff.mp hempty]
    · simp [Else.sites, Stmt.sites, Node.isMarked]
      abel

theorem lowerClause_lowers {frame : Frame} (hframe : frame.IsFree cx first) :
    ∀ clause : Clause, Lowers cx first frame (lowerClause cx frame clause) clause.sites
      Clause.sites fun _ => ∀ again ∈ clause.repeated, again.node.isAttempt = false
  | .infinite => .pure ⟨nofun, .none⟩
  | .condition test => by
    have htest := lowerExpr_lowers hframe test false
    rw [Site.spreadIf_false] at htest
    refine (loopCondition_lowers htest).bind fun test' before ⟨hagain, htest⟩ => ?_
    exact .pure ⟨hagain, htest.congr rfl (by simp [Clause.sites])⟩
  | .three start condition post => by
    refine (lowerFirst_lowers hframe start).bind fun start' before ⟨_, hstart⟩ => ?_
    refine (lowerCondition_lowers hframe condition).bind
      fun condition' between ⟨hagain, hcondition⟩ => ?_
    refine (lowerPost_lowers hframe post).bind fun post' after ⟨hagain', hpost⟩ => ?_
    refine .pure ⟨List.forall_mem_append.mpr ⟨hagain, hagain'⟩, ?_⟩
    refine ((hstart.both hcondition).both hpost).congr (by simp [Clause.sites]) ?_
    simp [Clause.sites]
    abel
  | .range key value define source => by
    refine (lowerExpr_lowers hframe source false).bind fun source' before ⟨_, hsource⟩ => ?_
    exact .pure ⟨nofun, hsource.congr (by simp [Clause.sites]) (by simp [Clause.sites])⟩

theorem lowerFirst_lowers {frame : Frame} (hframe : frame.IsFree cx first) :
    ∀ start : Option Stmt, Lowers cx first frame (lowerFirst cx frame start)
      (Stmt.sitesOption start) Stmt.sitesOption fun _ => True
  | none => .pure ⟨trivial, .none⟩
  | some stmt => by
    refine (lowerStmt_lowers hframe stmt).collect.after fun ⟨_, code⟩ hstmt => ?_
    refine ensuresFrom_emit_pure ⟨trivial, hstmt.congr rfl ?_⟩
    rw [add_comm]
    exact Stmt.marks_getLast? code

theorem lowerCondition_lowers {frame : Frame} (hframe : frame.IsFree cx first) :
    ∀ condition : Option Expr, Lowers cx first frame (lowerCondition cx frame condition)
      (Expr.sitesOption condition) Expr.sitesOption
      fun _ => ∀ again ∈ Expr.sitesOption condition, again.node.isAttempt = false
  | none => .pure ⟨nofun, .none⟩
  | some test => by
    have htest := lowerExpr_lowers hframe test false
    rw [Site.spreadIf_false] at htest
    refine (loopCondition_lowers htest).bind fun test' before ⟨hagain, htest⟩ => ?_
    exact .pure ⟨hagain, htest.congr rfl (by simp [Expr.sitesOption])⟩

theorem lowerPost_lowers {frame : Frame} (hframe : frame.IsFree cx first) :
    ∀ post : Option Stmt, Lowers cx first frame (lowerPost cx frame post)
      (Stmt.sitesOption post) Stmt.sitesOption
      fun _ => ∀ again ∈ Stmt.sitesOption post, again.node.isAttempt = false
  | none => .pure ⟨nofun, .none⟩
  | some stmt => by
    refine .ite (fun _ => ensuresFrom_report_bind _ _) fun hattempt => ?_
    have hattempt : stmt.containsAttempt = false := by simpa using hattempt
    -- Only the last statement is kept, and there is no other.
    refine ((lowerStmt_lowers hframe stmt).and (R := fun _ code => code.length ≤ 1) fun supply =>
      length_lowerStmt_code cx frame stmt supply hattempt).collect.after ?_
    rintro ⟨_, code⟩ ⟨hstmt, (hlength : code.length ≤ 1)⟩
    refine .pure ⟨Stmt.isAttempt_sites hattempt, hstmt.congr rfl ?_⟩
    have hdrop : code.dropLast = [] := List.eq_nil_of_length_eq_zero (by simp; omega)
    have hlast := Stmt.marks_getLast? code
    rw [hdrop, Stmt.marks_nil, zero_add] at hlast
    rw [hlast, Stmt.marks_nil, add_zero]
end

/-! ### The pass over a unit -/

/-- What is known in a function that is lowered. -/
def Context.ofFunction (table : SignatureTable) (settings : Settings) (f : Function) : Context :=
  { Scope.ofFunction table f with settings }

/-- A function is lowered: its return clause is that of its signature, and the nodes of its body are
traded. -/
structure FunctionLowered (table : SignatureTable) (settings : Settings) (sig : Signature)
    (f f' : Function) : Prop where
  returns : f'.returns = sig.clause
  trade : Trade (.ofFunction table settings f) (.avoiding settings.stem f.names)
    (.ofShape table f.name sig.returns) f.body.sites (Site.marked f'.body.sites)

/-- A lowered function has the return clause of its signature, and the nodes of its body are traded.
-/
theorem lowerFunction_lowered (table : SignatureTable) (settings : Settings) (f : Function)
    (sig : Signature) :
    (lowerFunction table settings f sig).Yields (FunctionLowered table settings sig f) := by
  let cx : Context := .ofFunction table settings f
  let first : NameSupply := .avoiding settings.stem f.names
  let frame : Frame := .ofShape table f.name sig.returns
  have hframe : frame.IsFree cx first := Frame.isFree_ofShape f.name sig.returns
  have hbody : ((lowerBlock cx frame f.body).runWith first).Yields fun body =>
      Trade cx first frame f.body.sites (Site.marked body.sites) := by
    intro hfaults
    obtain ⟨-, -, htrade⟩ := lowerBlock_lowers hframe f.body first (.refl first) hfaults
    exact htrade
  exact hbody.bind fun body htrade => .pure ⟨rfl, htrade⟩

end Propagation

open Propagation in
/-- The functions of a unit that is lowered without a fault, each at its place. -/
theorem propagateErrors_lowered {table : SignatureTable} {settings : Settings}
    {program lowered : Program} (h : (propagateErrors table settings program).outcome = .ok lowered)
    {i : Nat} {f : Function} {sig : Signature} (hf : program.items[i]? = some (.func f))
    (hsig : table.get? f.key = some sig) :
    ∃ f', lowered.items[i]? = some (.func f') ∧ FunctionLowered table settings sig f f' := by
  have hitem (item : Item) : (lowerItem table settings item).Yields fun item' =>
      ∀ f sig, item = .func f → table.get? f.key = some sig →
        ∃ f', item' = .func f' ∧ FunctionLowered table settings sig f f' := by
    rintro hfaults f sig rfl hsig
    have hlowered : (lowerItem table settings (.func f)).Yields fun item' =>
        ∃ f', item' = .func f' ∧ FunctionLowered table settings sig f f' := by
      rw [lowerItem, hsig]
      exact (lowerFunction_lowered table settings f sig).bind fun f' hf' => .pure ⟨f', rfl, hf'⟩
    exact hlowered hfaults
  have hitems : (propagateErrors table settings program).Yields fun program' =>
      ∀ (i : Nat) item, program.items[i]? = some item → ∃ item', program'.items[i]? = some item' ∧
        ∀ f sig, item = .func f → table.get? f.key = some sig →
          ∃ f', item' = .func f' ∧ FunctionLowered table settings sig f f' :=
    (Noted.yields_mapM_getElem? hitem program.items).bind fun _ h => .pure h
  obtain ⟨item', hitem', hlowered⟩ := hitems.of_outcome h i _ hf
  obtain ⟨f', rfl, hf'⟩ := hlowered f sig rfl hsig
  exact ⟨f', hitem', hf'⟩

/-! ### A unit with a function that may fail -/

namespace Propagation

/-- The signature of a function without parameters that returns a result. -/
def resultSignature (name : String) (values : List Ty) : Signature where
  name
  params := []
  returns := { declared := values, values, isResult := true }

/-- The signatures of `load`, `pair` and `poll`. -/
def pollTable : SignatureTable where
  functions := [("load", resultSignature "load" [.named "int"]),
    ("pair", resultSignature "pair" [.named "int", .named "string"]),
    ("poll", resultSignature "poll" [.named "int"])]

/-- `try name()`. -/
def attemptOf (name : String) : Expr := .attempt (.apply (.name name) []) .nowhere

/-- A loop that starts with a `try`, with two targets for a call of two values, a function literal
that throws, and a receive ahead of a `try` in its body; then `return try load()`. -/
def poll : Function where
  name := "poll"
  receiver := none
  params := [⟨"ch", .channel (.named "int") .both, {}⟩]
  returns := some (.result (.named "int"))
  body := .inserted [
    .loop (.three (some (.define ["i"] [attemptOf "load"]))
        (some (.binary .lt (.name "i") (.int 3) .nowhere)) none)
      (.inserted [
        .define ["a", "b"] [attemptOf "pair"],
        .define ["late"] [.func [] (some (.result (.tuple [])))
          (.inserted [.throw (.string "late") .nowhere]) .nowhere],
        .expr (.apply (.name "use") [.unary .receive (.name "ch") .nowhere, attemptOf "load"])])
      .nowhere,
    .ret [attemptOf "load"] .nowhere]

/-- The unit of `poll`. -/
def pollUnit : Program where
  name := "poll"
  package := "main"
  imports := []
  items := [.func poll]

end Propagation

end Desugar
