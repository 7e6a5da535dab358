import Desugar.Proofs.Dispatch.Wiring

/-!
# What the operands of a go-binding refer to

An identifier refers to a declaration around the code that it stands in if it is free in the code.
The operands of a go-binding are free in it: its names are declared for what follows. In the code
that it is replaced by, operands stand in the captures and in the call of the task, after the states
of the names have been declared.

- `Expr.free` and the functions beside it: the free identifiers, by the lexical scope of
  `Stmt.declares` and `Clause.declares`.
- `Dispatch.count_free_dispatch`: an identifier of an operand stays free, unless it is a bound name.
- `Dispatch.count_free_dispatch_own`: a bound name in an operand is taken for its new state.
-/

namespace Desugar

/-- The identifiers that are not in the scope of a declaration of the given names. -/
def Ident.outside (names : List String) (ids : List Ident) : List Ident :=
  ids.filter fun id => !names.contains id.name

/-- The names that are declared. -/
def Visible.names (declared : Visible) : List String := declared.map Prod.fst

mutual
/-- The identifiers of an expression that refer to declarations around it. -/
def Expr.free (e : Expr) : List Ident :=
  match e with
  | .ident name span => [{ name, span }]
  | .lit _ _ | .ofType _ _ => []
  | .call callee args _ => callee.free ++ Expr.freeList args
  | .template segments _ => Segment.freeList segments
  | .attempt operand _ => operand.free
  | .binary _ left right _ => left.free ++ right.free
  | .unary _ operand _ => operand.free
  | .selector base _ _ => base.free
  | .index base index _ => base.free ++ index.free
  | .composite _ elements _ => Element.freeList elements
  | .func params _ body _ => Ident.outside (params.map (·.name)) body.free
termination_by structural e

/-- The free identifiers of a list of expressions. -/
def Expr.freeList (es : List Expr) : List Ident :=
  match es with
  | [] => []
  | e :: rest => e.free ++ Expr.freeList rest
termination_by structural es

/-- The free identifiers of an optional expression. -/
def Expr.freeOption (e : Option Expr) : List Ident :=
  match e with
  | none => []
  | some e => e.free
termination_by structural e

/-- The free identifiers of a template. -/
def Segment.freeList (segments : List Segment) : List Ident :=
  match segments with
  | [] => []
  | .text _ :: rest => Segment.freeList rest
  | .embed value _ _ :: rest => value.free ++ Segment.freeList rest
termination_by structural segments

/-- The free identifiers of a composite literal. -/
def Element.freeList (elements : List Element) : List Ident :=
  match elements with
  | [] => []
  | ⟨key, value⟩ :: rest => Expr.freeOption key ++ value.free ++ Element.freeList rest
termination_by structural elements

/-- The free identifiers of a block. -/
def Block.free (block : Block) : List Ident :=
  match block with
  | ⟨stmts, _⟩ => Stmt.freeList stmts
termination_by structural block

/-- The free identifiers of a list of statements, each of which declares names for those after
it. -/
def Stmt.freeList (stmts : List Stmt) : List Ident :=
  match stmts with
  | [] => []
  | stmt :: rest => stmt.free ++ Ident.outside stmt.declares.names (Stmt.freeList rest)
termination_by structural stmts

/-- The free identifiers of a statement. The names that it declares are no references. -/
def Stmt.free (stmt : Stmt) : List Ident :=
  match stmt with
  | .var _ _ values _ => Expr.freeList values
  | .assign targets .define values _ =>
    Ident.outside (targets.filterMap Expr.asName?) (Expr.freeList targets) ++ Expr.freeList values
  | .assign targets _ values _ => Expr.freeList targets ++ Expr.freeList values
  | .expr value => value.free
  | .ret values _ => Expr.freeList values
  | .cond branch => branch.free
  | .loop clause body _ => clause.free ++ Ident.outside clause.declares.names body.free
  | .throw value _ => value.free
  | .bind _ call _ => call.free
  | .go call _ => call.free
  | .defer call _ => call.free
  | .breakLoop _ | .continueLoop _ => []
  | .block body => body.free
termination_by structural stmt

/-- The free identifiers of an optional statement. -/
def Stmt.freeOption (stmt : Option Stmt) : List Ident :=
  match stmt with
  | none => []
  | some stmt => stmt.free
termination_by structural stmt

/-- The free identifiers of a conditional. -/
def If.free (branch : If) : List Ident :=
  match branch with
  | ⟨condition, thenBlock, otherwise, _⟩ => condition.free ++ thenBlock.free ++ otherwise.free
termination_by structural branch

/-- The free identifiers of what follows a failed condition. -/
def Else.free (otherwise : Else) : List Ident :=
  match otherwise with
  | .none => []
  | .block body => body.free
  | .elseIf branch => branch.free
termination_by structural otherwise

/-- The free identifiers of a loop header. -/
def Clause.free (clause : Clause) : List Ident :=
  match clause with
  | .infinite => []
  | .condition test => test.free
  | .three first condition post =>
    Stmt.freeOption first ++ Ident.outside (Stmt.declaresOption first).names
      (Expr.freeOption condition ++ Stmt.freeOption post)
  | .range _ _ true source => source.free
  | .range key value false source => source.free ++ key.toList ++ value.toList
termination_by structural clause
end

/-! ### Occurrences -/

section Count

variable {id : Ident}

/-- Leaving out the uses of some names removes these uses and no others. -/
theorem Ident.count_outside (names : List String) (ids : List Ident) :
    (Ident.outside names ids).count id = if id.name ∈ names then 0 else ids.count id := by
  by_cases h : id.name ∈ names
  · rw [if_pos h]
    refine List.count_eq_zero.mpr fun hmem => ?_
    simp [Ident.outside, h] at hmem
  · rw [if_neg h, Ident.outside, List.count_filter (by simpa using h)]

/-- An expression that is a name has no other free identifier. -/
theorem count_ident (x : String) (span : Span) (h : id.name ≠ x) :
    (Expr.ident x span).free.count id = 0 := by
  refine List.count_eq_zero.mpr fun hmem => h ?_
  rw [List.mem_singleton.mp hmem]

/-- Names that are defined are no references. -/
theorem Stmt.free_define (xs : List String) (values : List Expr) :
    (Stmt.define xs values).free = Expr.freeList values := by
  have hnames : (xs.map Expr.name).filterMap Expr.asName? = xs := by
    induction xs with
    | nil => rfl
    | cons x rest ih => exact congrArg (x :: ·) ih
  have hmem (ys : List String) : ∀ id ∈ Expr.freeList (ys.map Expr.name), id.name ∈ ys := by
    induction ys with
    | nil => simp [Expr.freeList]
    | cons y rest ih =>
      intro id hid
      rcases List.mem_cons.mp hid with rfl | hid
      · exact List.mem_cons_self
      · exact List.mem_cons_of_mem _ (ih id hid)
  have htargets : Ident.outside xs (Expr.freeList (xs.map Expr.name)) = [] :=
    List.filter_eq_nil_iff.mpr fun id hid => by simpa using hmem xs id hid
  rw [Stmt.define, Stmt.free, hnames, htargets, List.nil_append]

/-- A definition declares the names on its left side. -/
theorem Stmt.declares_define (xs : List String) (values : List Expr) :
    (Stmt.define xs values).declares.names = xs := by
  induction xs with
  | nil => rfl
  | cons x rest ih => exact congrArg (x :: ·) ih

/-- Definitions ahead of other code. -/
theorem Stmt.count_free_define_cons (xs : List String) (values : List Expr) (rest : List Stmt) :
    (Stmt.freeList (Stmt.define xs values :: rest)).count id =
      (Expr.freeList values).count id +
        if id.name ∈ xs then 0 else (Stmt.freeList rest).count id := by
  rw [Stmt.freeList, Stmt.free_define, Stmt.declares_define, List.count_append,
    Ident.count_outside]

/-- Statements that declare nothing and in which the identifier does not stand. -/
theorem Stmt.count_free_eq_zero {stmts : List Stmt} (h : ∀ stmt ∈ stmts, stmt.free.count id = 0) :
    (Stmt.freeList stmts).count id = 0 := by
  induction stmts with
  | nil => rfl
  | cons stmt rest ih =>
    obtain ⟨hstmt, hrest⟩ := List.forall_mem_cons.mp h
    rw [Stmt.freeList, List.count_append, hstmt, Ident.count_outside, ih hrest, ite_self]

/-- A method call on one name with another one has no other free names. -/
theorem count_method {receiver field arg : String} (hreceiver : id.name ≠ receiver)
    (harg : id.name ≠ arg) :
    (Stmt.expr (Expr.method receiver field [Expr.name arg])).free.count id = 0 := by
  have hfree : (Stmt.expr (Expr.method receiver field [Expr.name arg])).free =
      (Expr.name receiver).free ++ (Expr.name arg).free := rfl
  rw [hfree, List.count_append, Expr.name, Expr.name, count_ident _ _ hreceiver,
    count_ident _ _ harg]

/-- The call of a function literal without parameters. -/
theorem free_task (body : List Stmt) (span : Span) :
    (Expr.apply (.func [] none (.inserted body) span) []).free = Stmt.freeList body := by
  have hfree : (Expr.apply (.func [] none (.inserted body) span) []).free =
      Ident.outside [] (Stmt.freeList body) ++ [] := rfl
  rw [hfree, List.append_nil]
  exact List.filter_eq_self.mpr fun _ _ => rfl

end Count

namespace Dispatch

variable {id : Ident}

/-! ### The parts of a go-binding -/

/-- The states hide the bound names from what follows and use no name but the one that makes them.
-/
theorem count_free_states (settings : Settings) (pairs : List (String × Ty)) (rest : List Stmt)
    (h : id.name ≠ settings.hidden "NewSync") :
    (Stmt.freeList (pairs.map (fun pair => stateOf settings pair.1 pair.2) ++ rest)).count id =
      if id.name ∈ pairs.map Prod.fst then 0 else (Stmt.freeList rest).count id := by
  induction pairs with
  | nil => rfl
  | cons pair pairs ih =>
    have hvalue : (Expr.freeList [Expr.apply (.index (Expr.name (settings.hidden "NewSync"))
        (.ofType pair.2 .nowhere) .nowhere) []]).count id = 0 := count_ident _ _ h
    rw [List.map_cons, List.cons_append, stateOf, Stmt.count_free_define_cons, hvalue, ih]
    by_cases hfirst : id.name = pair.1 <;> simp [hfirst, -List.mem_map]

/-- The temporaries add the uses in the operands that they hold to the uses in what follows. -/
theorem count_free_temps {temps : List (String × Expr)} (rest : List Stmt)
    (h : id.name ∉ temps.map Prod.fst) :
    (Stmt.freeList (temps.map (fun temp => Stmt.define [temp.1] [temp.2]) ++ rest)).count id =
      (Expr.freeList (temps.map Prod.snd)).count id + (Stmt.freeList rest).count id := by
  induction temps with
  | nil => simp [Expr.freeList]
  | cons temp temps ih =>
    obtain ⟨hfirst, hothers⟩ := not_or.mp (mt List.mem_cons.mpr h)
    rw [List.map_cons, List.cons_append, Stmt.count_free_define_cons,
      if_neg (by simpa using hfirst), ih hothers]
    simp [Expr.freeList, Nat.add_assoc]

/-- The temporaries refer to what is captured, and what stands for the operands to the rest. -/
theorem count_free_captured {evaluated : Expr → Bool} {es es' : List Expr}
    {temps : List (String × Expr)} (h : Captured evaluated es temps es')
    (hid : id.name ∉ temps.map Prod.fst) :
    (Expr.freeList (temps.map Prod.snd)).count id + (Expr.freeList es').count id =
      (Expr.freeList es).count id := by
  induction h with
  | nil => rfl
  | kept _ _ ih =>
    have hrest := ih hid
    simp only [Expr.freeList, List.count_append]
    omega
  | held x _ _ ih =>
    obtain ⟨hfirst, hothers⟩ := not_or.mp (mt List.mem_cons.mpr hid)
    have hx : (Expr.name x).free.count id = 0 := count_ident _ _ hfirst
    have hrest := ih hothers
    simp only [List.map_cons, Expr.freeList, List.count_append]
    omega

/-- The call of a task refers to what is not captured. -/
theorem count_free_call {w : Wiring} {callee : Expr} {args : List Expr}
    (h : w.Captures callee args) (hid : id.name ∉ w.temps.map Prod.fst) (callSpan : Span) :
    (Expr.freeList (w.temps.map Prod.snd)).count id +
        (Expr.call w.callee w.args callSpan).free.count id =
      (Expr.call callee args callSpan).free.count id := by
  obtain ⟨first, rest, htemps, hcallee, hargs⟩ := h.operands
  rw [htemps, List.map_append, List.mem_append, not_or] at hid
  have hcallee := count_free_captured hcallee hid.1
  have hargs := count_free_captured hargs hid.2
  have happend (es es' : List Expr) : Expr.freeList (es ++ es') =
      Expr.freeList es ++ Expr.freeList es' := by
    induction es with
    | nil => rfl
    | cons e rest ih => rw [List.cons_append, Expr.freeList, Expr.freeList, ih, List.append_assoc]
  have hone (e : Expr) : Expr.freeList [e] = e.free := List.append_nil _
  rw [hone, hone] at hcallee
  rw [htemps, List.map_append, happend, Expr.free, Expr.free, List.count_append,
    List.count_append, List.count_append]
  omega

/-- The recovery of a task refers to the states and to nothing else that is declared around it. -/
theorem count_free_recovery {states : List String} {failure : String} (span : Span)
    (hstates : id.name ∉ states) (hfailure : id.name ≠ failure) (hrecover : id.name ≠ "recover") :
    (recovery states failure span).free.count id = 0 := by
  have hfails : (Stmt.freeList (states.map fun state =>
      .expr (Expr.method state "fail" [Expr.name failure]))).count id = 0 := by
    refine Stmt.count_free_eq_zero fun stmt hstmt => ?_
    obtain ⟨state, hstate, rfl⟩ := List.mem_map.mp hstmt
    exact count_method (fun heq => hstates (heq ▸ hstate)) hfailure
  have hcall : (Expr.freeList [(Expr.name "recover").apply []]).count id = 0 :=
    count_ident _ _ hrecover
  have htest : (Expr.isNotNil failure).free.count id = 0 := count_ident _ _ hfailure
  show (Expr.apply (.func [] none (.inserted _) span) []).free.count id = 0
  rw [free_task, Stmt.count_free_define_cons, hcall, if_neg (by simpa using hfailure)]
  refine (Nat.zero_add _).trans (Stmt.count_free_eq_zero fun stmt hstmt => ?_)
  obtain rfl := List.mem_singleton.mp hstmt
  show ((Expr.isNotNil failure).free ++ Stmt.freeList _ ++ []).count id = 0
  rw [List.append_nil, List.count_append, htest, hfails]

/-- The body of a task refers to what its call refers to. -/
theorem count_free_body {w : Wiring} {settings : Settings} {names : List Ident} {slots : List Ty}
    {callee : Expr} {args : List Expr} (h : w.Made settings names slots callee args)
    (hhidden : id.name ∉ w.hidden) (hstates : id.name ∉ stateNames names)
    (hrecover : id.name ≠ "recover") (callSpan span : Span) :
    (Stmt.freeList (w.task callSpan span)).count id =
      (Expr.call w.callee w.args callSpan).free.count id := by
  obtain ⟨states, temps, callee', args', outcome⟩ := w
  cases h.outcome with
  | nothing =>
    show ((Expr.call callee' args' callSpan).free ++ _).count id = _
    rw [List.count_append]
    rfl
  | @task _ failure results hresults =>
    obtain ⟨-, hhidden⟩ := not_or.mp (mt List.mem_append.mpr hhidden)
    obtain ⟨hfailure, hnew⟩ : id.name ≠ failure ∧
        id.name ∉ results.filter (fun result => result != "_") :=
      not_or.mp (mt List.mem_cons.mpr hhidden)
    have hputs : (Stmt.freeList (outcomeOf names failure results).puts).count id = 0 := by
      refine Stmt.count_free_eq_zero fun stmt hstmt => ?_
      obtain ⟨⟨state, result⟩, hpair, rfl⟩ := List.mem_map.mp hstmt
      have hstate : state ∈ stateNames names := by
        rw [← map_fst_atNames hresults.length_eq.symm]
        exact List.mem_map_of_mem hpair
      have hresult : result ∈ results.filter (fun result => result != "_") := by
        rw [← map_snd_atNames hresults]
        exact List.mem_map_of_mem hpair
      exact count_method (fun heq => hstates (heq ▸ hstate)) fun heq => hnew (heq ▸ hresult)
    show ((recovery (stateNames names) failure span).free ++ Ident.outside [] (Stmt.freeList
      (Stmt.define results [.call callee' args' callSpan] ::
        (outcomeOf names failure results).puts))).count id = _
    rw [List.count_append, count_free_recovery span hstates hfailure hrecover, Ident.count_outside,
      if_neg List.not_mem_nil, Stmt.count_free_define_cons, hputs, ite_self, Nat.zero_add]
    show ((Expr.call callee' args' callSpan).free ++ []).count id = _
    rw [List.append_nil]

/-- **What the operands of a go-binding refer to.** An identifier that the supply knows, and that
the inserted code does not use itself, occurs freely in the code of a go-binding as often as in its
call, so that every occurrence in an operand refers to the same declaration. If it is one of the
bound names, no occurrence does: the states are declared first. -/
theorem count_free_dispatch (cx : Context) (names : List Ident) (call : Expr) (span : Span)
    (supply : NameSupply) (hfaults : (dispatch cx names call span supply).notes.faults = [])
    (id : Ident) (hknown : id.name ∈ supply.used)
    (hsupport : id.name ∉ [cx.settings.hidden "NewSync", "recover"]) :
    (Stmt.freeList (dispatch cx names call span supply).code).count id =
      if id.name ∈ stateNames names then 0 else call.free.count id := by
  obtain ⟨callee, args, callSpan, sig, w, rfl, -, hslots, hcode, hmade, -, hnew⟩ :=
    exists_wiring hfaults
  have hhidden : id.name ∉ w.hidden := fun hmem => hnew _ hmem hknown
  have htemps : id.name ∉ w.temps.map Prod.fst := fun hmem => hhidden (List.mem_append_left _ hmem)
  obtain ⟨hsync, hrecover⟩ : id.name ≠ cx.settings.hidden "NewSync" ∧ id.name ≠ "recover" := by
    simpa using hsupport
  rw [hcode, Wiring.code, List.append_assoc, hmade.states, count_free_states _ _ _ hsync,
    map_fst_atNames hslots]
  by_cases hstate : id.name ∈ stateNames names
  · rw [if_pos hstate, if_pos hstate]
  · have htask : (Stmt.freeList [Stmt.go (Expr.apply (.func [] none
        (.inserted (w.task callSpan span)) span) []) span]).count id =
        (Expr.call w.callee w.args callSpan).free.count id := by
      rw [← count_free_body hmade hhidden hstate hrecover callSpan span,
        ← free_task (w.task callSpan span) span]
      exact congrArg (List.count id) (List.append_nil _)
    rw [if_neg hstate, if_neg hstate, count_free_temps _ htemps, htask,
      count_free_call hmade.captures htemps]

/-- `value, _ := go c.fetch(join(key, key), 3)` -/
theorem count_free_dispatch_fetch :
    let names : List Ident := [{ name := "value" }, { name := "_" }]
    let call : Expr := .apply ((Expr.name "c").member "fetch")
      [.apply (.name "join") [.name "key", .name "key"], .int 3]
    let supply := NameSupply.avoiding "gx" ["c", "join", "key", "value"]
    let pass := dispatch fetching names call .nowhere supply
    let id : Ident := { name := "key", span := .nowhere }
    pass.notes.faults = [] ∧ id.name ∈ supply.used ∧
      id.name ∉ [fetching.settings.hidden "NewSync", "recover"] ∧
      (Stmt.freeList pass.code).count id = 2 := by
  intro names call supply pass id
  have hfaults : pass.notes.faults = [] := rfl
  have hknown : id.name ∈ supply.used := by decide
  have hsupport : id.name ∉ [fetching.settings.hidden "NewSync", "recover"] := by decide
  refine ⟨hfaults, hknown, hsupport, ?_⟩
  rw [count_free_dispatch fetching names call .nowhere supply hfaults id hknown hsupport]
  decide

/-- `key, _ := go c.fetch(key, 3)` captures the new state of `key`, and not what the call is
given. -/
theorem count_free_dispatch_own :
    let names : List Ident := [{ name := "key" }, { name := "_" }]
    let call : Expr := .apply ((Expr.name "c").member "fetch") [.name "key", .int 3]
    let supply := NameSupply.avoiding "gx" ["c", "key"]
    let pass := dispatch fetching names call .nowhere supply
    let id : Ident := { name := "key", span := .nowhere }
    pass.notes.faults = [] ∧ call.free.count id = 1 ∧ (Stmt.freeList pass.code).count id = 0 := by
  decide

end Dispatch

end Desugar
