import Desugar.Proofs.Dispatch.Redirect
import Desugar.Proofs.Pass.Draws

/-!
# The wiring of a go-binding

The code of a go-binding makes a state for each bound name, captures operands in temporaries, and
starts a task that calls the function and sends each result, or the failure of the call, to states.
Names and slots, names and results, and arguments and temporaries are paired by position, and
positions with a blank name are left out of some of these pairings. Here is what the pairs come to.

- `Wiring` takes the emitted code apart, `Wiring.code` puts it together.
- `Wiring.Serves` says which name, slot, operand and result belong together.
- `Dispatch.dispatch_wires`: every go-binding that is accepted is wired so, with new names.
- `Dispatch.dispatch_wires_unknown`: a bound name that the supply does not know can be taken for a
  result, which then hides the state.
-/

namespace Desugar

/-- The named value whose method a statement calls. -/
def Stmt.receiver? : Stmt → Option String
  | .expr (.call (.selector (.ident x _) _ _) _ _) => some x
  | _ => none

/-- The name that is the only argument of the call that a statement consists of. -/
def Stmt.argument? : Stmt → Option String
  | .expr (.call _ [.ident x _] _) => some x
  | _ => none

/-- The expression is a method or a member of a package. -/
def Expr.isSelector : Expr → Bool
  | .selector _ _ _ => true
  | _ => false

namespace Dispatch

/-! ### Names and what stands at their positions -/

/-- The names that are not blank, each with the value at its position. -/
def atNames {α : Type} (names : List Ident) (values : List α) : List (String × α) :=
  (names.zip values).filterMap fun pair =>
    if pair.1.isBlank then none else some (pair.1.name, pair.2)

section AtNames

variable {α β : Type} {names : List Ident} {values : List α}

/-- What is made for the names that are not blank. -/
theorem filterMap_zip_eq (make : String → α → β) :
    ((names.zip values).filterMap fun pair =>
      if pair.1.isBlank then none else some (make pair.1.name pair.2)) =
      (atNames names values).map fun pair => make pair.1 pair.2 := by
  rw [atNames, List.map_filterMap]
  refine List.filterMap_congr fun pair _ => ?_
  cases pair.1.isBlank <;> rfl

/-- With a value for each name, the names of the states are those that are not blank. -/
theorem map_fst_atNames (h : values.length = names.length) :
    (atNames names values).map Prod.fst = stateNames names := by
  induction names generalizing values with
  | nil => rfl
  | cons name rest ih =>
    cases values with
    | nil => cases h
    | cons value values =>
      have hrest : (atNames rest values).map Prod.fst = stateNames rest := ih (by simpa using h)
      cases hblank : name.isBlank <;> simpa [atNames, stateNames, hblank] using hrest

/-- A name that is not blank is paired with the value at its own position. -/
theorem mem_atNames {i : Nat} {name : Ident} {value : α} (hname : names[i]? = some name)
    (hvalue : values[i]? = some value) (hblank : name.isBlank = false) :
    (name.name, value) ∈ atNames names values := by
  have hmem : (name, value) ∈ names.zip values :=
    List.mem_of_getElem? (i := i) (List.getElem?_zip_eq_some.mpr ⟨hname, hvalue⟩)
  exact List.mem_filterMap.mpr ⟨(name, value), hmem, by simp [hblank]⟩

end AtNames

/-- The only statement with its key. -/
theorem filter_key_eq {α : Type} {l : List α} {make : α → Stmt} {key : Stmt → Option String}
    {g : α → String} (hkey : ∀ a, key (make a) = some (g a)) (hnodup : (l.map g).Nodup) {a : α}
    (ha : a ∈ l) : (l.map make).filter (fun stmt => key stmt == some (g a)) = [make a] := by
  have hfilter : l.filter (fun b => g b == g a) = [a] := by
    induction l with
    | nil => cases ha
    | cons b rest ih =>
      obtain ⟨hb, hrest⟩ := List.nodup_cons.mp hnodup
      rcases List.mem_cons.mp ha with rfl | ha
      · have hnone : rest.filter (fun b => g b == g a) = [] := by
          refine List.filter_eq_nil_iff.mpr fun b hb' heq => hb ?_
          rw [← eq_of_beq heq]
          exact List.mem_map_of_mem hb'
        rw [List.filter_cons_of_pos (by simp), hnone]
      · have hne : (g b == g a) = false := by
          refine beq_eq_false_iff_ne.mpr fun heq => hb ?_
          rw [heq]
          exact List.mem_map_of_mem ha
        rw [List.filter_cons_of_neg (by simp [hne]), ih hrest ha]
  rw [List.filter_map]
  have hcomp : ((fun stmt => key stmt == some (g a)) ∘ make) = fun b => g b == g a := by
    funext b
    simp [hkey]
  rw [hcomp, hfilter, List.map_singleton]

/-! ### The code of a go-binding -/

/-- How the outcome of a call reaches the states. -/
structure Outcome where
  /-- The name of the recovered failure. -/
  failure : String
  /-- The names of the results, or blanks. -/
  results : List String
  /-- The statements that send the failure to the states. -/
  fails : List Stmt
  /-- The statements that send the results to the states. -/
  puts : List Stmt

/-- The parts of the code that a go-binding is replaced by. -/
structure Wiring where
  states : List Stmt
  /-- The temporaries and the operands that they hold. -/
  temps : List (String × Expr)
  callee : Expr
  args : List Expr
  /-- There is none if the task has no state. -/
  outcome : Option Outcome

namespace Wiring

/-- The body of the task. -/
def task (w : Wiring) (callSpan span : Span) : List Stmt :=
  let call := .call w.callee w.args callSpan
  match w.outcome with
  | none => [.expr call]
  | some outcome =>
    let recovered :=
      [Stmt.define [outcome.failure] [(Expr.name "recover").apply []],
        Stmt.onlyIf (Expr.isNotNil outcome.failure) outcome.fails]
    .defer (Expr.apply (.func [] none (.inserted recovered) span) []) span ::
      Stmt.define outcome.results [call] :: outcome.puts

/-- States, temporaries and the start of the task. -/
def code (w : Wiring) (callSpan span : Span) : List Stmt :=
  w.states ++ w.temps.map (fun temp => Stmt.define [temp.1] [temp.2]) ++
    [.go (Expr.apply (.func [] none (.inserted (w.task callSpan span)) span) []) span]

/-- The names that are made up. -/
def hidden (w : Wiring) : List String :=
  w.temps.map Prod.fst ++
    match w.outcome with
    | none => []
    | some outcome => outcome.failure :: outcome.results.filter fun result => result != "_"

end Wiring

/-- The failure and the results are sent to the states of the names, each once. -/
structure Outcome.Delivers (outcome : Outcome) (names : List Ident) : Prop where
  results : List.Forall₂ (fun name result => result = "_" ↔ name.isBlank = true) names
    outcome.results
  /-- On a state there is one `put`, and its result has no other. -/
  put : ∀ (i : Nat) (name : Ident) (result : String), names[i]? = some name →
    outcome.results[i]? = some result → name.isBlank = false →
      outcome.puts.filter (fun stmt => stmt.receiver? == some name.name) =
          [.expr (Expr.method name.name "put" [Expr.name result])] ∧
        outcome.puts.filter (fun stmt => stmt.argument? == some result) =
          [.expr (Expr.method name.name "put" [Expr.name result])]
  length_puts : outcome.puts.length = (stateNames names).length
  fail : ∀ state ∈ stateNames names,
    outcome.fails.filter (fun stmt => stmt.receiver? == some state) =
      [.expr (Expr.method state "fail" [Expr.name outcome.failure])]
  length_fails : outcome.fails.length = (stateNames names).length

/-- The operands that have to be evaluated are captured in temporaries, in order, and each of them
is replaced by its own temporary. The other operands stay in place. -/
inductive Captured (evaluated : Expr → Bool) :
    List Expr → List (String × Expr) → List Expr → Prop
  | nil : Captured evaluated [] [] []
  | kept {e : Expr} {es es' : List Expr} {temps : List (String × Expr)} :
    evaluated e = false → Captured evaluated es temps es' →
      Captured evaluated (e :: es) temps (e :: es')
  | held {e : Expr} {es es' : List Expr} {temps : List (String × Expr)} (x : String) :
    evaluated e = true → Captured evaluated es temps es' →
      Captured evaluated (e :: es) ((x, e) :: temps) (Expr.name x :: es')

/-- The operands of a call are captured, the callee before the arguments. -/
structure Wiring.Captures (w : Wiring) (callee : Expr) (args : List Expr) : Prop where
  /-- Each operand that has to be evaluated is captured once, in order. -/
  temps : w.temps.map Prod.snd =
    [callee].filter Expr.isSelector ++ args.filter fun arg => !isConstant arg
  /-- The task gets the temporary of an operand at the position of the operand. -/
  operands : ∃ first rest, w.temps = first ++ rest ∧
    Captured Expr.isSelector [callee] first [w.callee] ∧
    Captured (fun arg => !isConstant arg) args rest w.args

/-- The parts belong to a go-binding of the names, for a call with the given slots. -/
structure Wiring.Serves (w : Wiring) (settings : Settings) (names : List Ident) (slots : List Ty)
    (callee : Expr) (args : List Expr) : Prop where
  /-- For a name that is not blank there is one state, with the type of its slot. -/
  state : ∀ (i : Nat) (name : Ident) (slot : Ty), names[i]? = some name → slots[i]? = some slot →
    name.isBlank = false →
      w.states.filter (fun stmt => stmt.declares.head?.map Prod.fst == some name.name) =
        [stateOf settings name.name slot]
  length_states : w.states.length = (stateNames names).length
  captures : w.Captures callee args
  outcome : w.outcome = none ↔ stateNames names = []
  delivers : ∀ outcome ∈ w.outcome, outcome.Delivers names

/-! ### Captured operands -/

/-- Temporaries are defined in order. -/
def Defines (temps : List (String × Expr)) (code : List Stmt) (xs : List String) : Prop :=
  code = temps.map (fun temp => Stmt.define [temp.1] [temp.2]) ∧ xs = temps.map Prod.fst

/-- The temporaries hold the operands that have to be evaluated, in order. -/
theorem Captured.map_snd {evaluated : Expr → Bool} {es es' : List Expr}
    {temps : List (String × Expr)} (h : Captured evaluated es temps es') :
    temps.map Prod.snd = es.filter evaluated := by
  induction h with
  | nil => rfl
  | kept he _ ih => simpa [he] using ih
  | held x he _ ih => simpa [he] using ih

/-- A captured operand takes one name, defines it, and is replaced by it. -/
theorem capture_takes (e : Expr) : (capture e).Takes fun e' code xs =>
    ∃ x, Defines [(x, e)] code xs ∧ e' = Expr.name x := by
  refine .bind (.fresh (Q := fun x code xs => code = [] ∧ xs = [x]) fun _ _ => ⟨rfl, rfl⟩) ?_
  rintro x _ _ ⟨rfl, rfl⟩
  refine .bind (.emit (Q := fun _ code xs => code = _ ∧ xs = []) ⟨rfl, rfl⟩) ?_
  rintro _ _ _ ⟨rfl, rfl⟩
  exact .pure ⟨x, ⟨rfl, rfl⟩, rfl⟩

/-- Only a callee that is a method or a member of a package is captured. -/
theorem captureCallee_takes (callee : Expr) : (captureCallee callee).Takes fun callee' code xs =>
    ∃ temps, Defines temps code xs ∧ Captured Expr.isSelector [callee] temps [callee'] := by
  cases callee with
  | selector base field span =>
    refine (capture_takes _).mono ?_
    rintro _ code xs ⟨x, hdefines, rfl⟩
    exact ⟨[(x, _)], hdefines, .held x rfl .nil⟩
  | _ => exact .pure ⟨[], ⟨rfl, rfl⟩, .kept rfl .nil⟩

/-- The arguments that are not constant are captured, in order. -/
theorem captureArgs_takes (args : List Expr) : (captureArgs args).Takes fun args' code xs =>
    ∃ temps, Defines temps code xs ∧ Captured (fun arg => !isConstant arg) args temps args' := by
  induction args with
  | nil => exact .pure ⟨[], ⟨rfl, rfl⟩, .nil⟩
  | cons arg rest ih =>
    refine .ite (fun hconstant => ?_) fun hconstant => ?_
    · show (captureArgs rest >>= fun rest => pure (arg :: rest)).Takes _
      refine ih.bind ?_
      rintro rest' _ _ ⟨temps, ⟨rfl, rfl⟩, hrest⟩
      exact .pure ⟨temps, ⟨by simp, by simp⟩, .kept (by simp [hconstant]) hrest⟩
    · refine (capture_takes arg).bind ?_
      rintro _ _ _ ⟨x, ⟨rfl, rfl⟩, rfl⟩
      refine ih.bind ?_
      rintro rest' _ _ ⟨temps, ⟨rfl, rfl⟩, hrest⟩
      exact .pure ⟨(x, arg) :: temps, ⟨by simp, by simp⟩, .held x (by simp [hconstant]) hrest⟩

/-! ### The outcome -/

/-- The outcome of a call for the given names. -/
def outcomeOf (names : List Ident) (failure : String) (results : List String) : Outcome where
  failure
  results
  fails := (stateNames names).map fun state =>
    .expr (Expr.method state "fail" [Expr.name failure])
  puts := (atNames names results).map fun pair =>
    .expr (Expr.method pair.1 "put" [Expr.name pair.2])

/-- With blank results for blank names, the results of the other names are those that are not blank.
-/
theorem map_snd_atNames {names : List Ident} {results : List String}
    (h : List.Forall₂ (fun name result => result = "_" ↔ name.isBlank = true) names results) :
    (atNames names results).map Prod.snd = results.filter fun result => result != "_" := by
  induction h with
  | nil => rfl
  | @cons name result names results hfirst _ ih =>
    cases hblank : name.isBlank <;> simp_all [atNames]

/-- If states and results are told apart by their names, then each state is sent the failure once,
and its own result once. -/
theorem outcomeOf_delivers {names : List Ident} {results : List String} (failure : String)
    (hnames : (stateNames names).Nodup)
    (hnew : (results.filter fun result => result != "_").Nodup)
    (hresults : List.Forall₂ (fun name result => result = "_" ↔ name.isBlank = true) names
      results) : (outcomeOf names failure results).Delivers names := by
  have hlength : results.length = names.length := hresults.length_eq.symm
  have hstates := map_fst_atNames hlength
  refine ⟨hresults, fun i name result hname hresult hblank => ?_, ?_, fun state hstate => ?_, ?_⟩
  · have hmem : (name.name, result) ∈ atNames names results := mem_atNames hname hresult hblank
    refine ⟨filter_key_eq (g := Prod.fst) (fun _ => rfl) ?_ hmem,
      filter_key_eq (g := Prod.snd) (fun _ => rfl) ?_ hmem⟩
    · rw [hstates]
      exact hnames
    · rw [map_snd_atNames hresults]
      exact hnew
  · rw [← hstates, List.length_map]
    exact List.length_map _
  · refine filter_key_eq (g := id) (fun _ => rfl) ?_ hstate
    rw [List.map_id]
    exact hnames
  · exact List.length_map _

/-- A result has a name of its own unless the bound name is blank, and these names are all that is
taken. -/
theorem resultNames_takes (names : List Ident) : (resultNames names).Takes fun results code xs =>
    code = [] ∧ xs = results.filter (fun result => result != "_") ∧
      List.Forall₂ (fun name result => result = "_" ↔ name.isBlank = true) names results := by
  induction names with
  | nil => exact .pure ⟨rfl, rfl, .nil⟩
  | cons name rest ih =>
    refine .ite (fun hblank => ?_) fun hblank => ?_
    · show (resultNames rest >>= fun rest => pure ("_" :: rest)).Takes _
      refine ih.bind ?_
      rintro results _ _ ⟨rfl, rfl, hrest⟩
      exact .pure ⟨rfl, by simp, .cons (by simp [hblank]) hrest⟩
    · refine .bind (.fresh (Q := fun x code xs => x ≠ "_" ∧ code = [] ∧ xs = [x])
        fun x hx => ⟨hx, rfl, rfl⟩) ?_
      rintro x _ _ ⟨hx, rfl, rfl⟩
      refine ih.bind ?_
      rintro results _ _ ⟨rfl, rfl, hrest⟩
      exact .pure ⟨rfl, by simp [hx], .cons (by simp [hx, hblank]) hrest⟩

/-- What an outcome consists of. -/
inductive Outcome.Follows (names : List Ident) : Option Outcome → Prop
  | nothing (h : stateNames names = []) : Follows names none
  | task (h : stateNames names ≠ []) (failure : String) {results : List String}
      (hresults : List.Forall₂ (fun name result => result = "_" ↔ name.isBlank = true) names
        results) : Follows names (some (outcomeOf names failure results))

/-- The body of a task, for a call of what is captured. -/
theorem taskBody_takes (names : List Ident) (w : Wiring) (callSpan span : Span) :
    (taskBody names (stateNames names) (.call w.callee w.args callSpan) span).Takes
      fun body code xs => ∃ outcome : Option Outcome, Outcome.Follows names outcome ∧ code = [] ∧
        body = { w with outcome }.task callSpan span ∧
        { w with outcome }.hidden = w.temps.map Prod.fst ++ xs := by
  refine .ite (fun hempty => .pure ⟨none, .nothing ?_, rfl, rfl, rfl⟩) fun hstates => ?_
  · simpa using hempty
  · refine .bind (.fresh (Q := fun x code xs => code = [] ∧ xs = [x]) fun x _ => ⟨rfl, rfl⟩) ?_
    rintro failure _ _ ⟨rfl, rfl⟩
    refine (resultNames_takes names).bind ?_
    rintro results _ _ ⟨rfl, rfl, hresults⟩
    have hputs : deliveries names results = (outcomeOf names failure results).puts :=
      filterMap_zip_eq fun name result => Stmt.expr (Expr.method name "put" [Expr.name result])
    refine .pure ⟨_, .task (by simpa using hstates) failure hresults, rfl, ?_, ?_⟩
    · rw [hputs]
      rfl
    · simp [Wiring.hidden, outcomeOf]

/-! ### Accepted go-bindings -/

/-- A go-binding that is not at fault is one of a call with a known signature, and there is a name
for each of its slots. -/
theorem dispatch_cases {cx : Context} {names : List Ident} {call : Expr} {span : Span}
    {supply : NameSupply} (h : (dispatch cx names call span supply).notes.faults = []) :
    ∃ callee args callSpan sig, call = .call callee args callSpan ∧
      cx.resolve? callee = some sig ∧ sig.slots.length = names.length ∧
      dispatch cx names call span = dispatchCall cx names sig callee args callSpan span := by
  cases call with
  | call callee args callSpan =>
    rw [dispatch] at h ⊢
    cases hsig : cx.resolve? callee with
    | none => simp [hsig] at h
    | some sig =>
      by_cases hlength : names.length = sig.slots.length
      · by_cases hdiscarded : (sig.isResult && names.all Ident.isBlank) = true
        · simp [hsig, hlength, hdiscarded] at h
        · refine ⟨callee, args, callSpan, sig, rfl, hsig, hlength.symm, ?_⟩
          simp [hlength, hdiscarded]
      · simp [hsig, hlength] at h
  | _ => simp [dispatch] at h

/-- The parts as they are made from the names, the slots and the operands. -/
structure Wiring.Made (w : Wiring) (settings : Settings) (names : List Ident) (slots : List Ty)
    (callee : Expr) (args : List Expr) : Prop where
  states : w.states = (atNames names slots).map fun pair => stateOf settings pair.1 pair.2
  captures : w.Captures callee args
  outcome : Outcome.Follows names w.outcome

/-- The code of a go-binding is put together from its parts, and the names that it takes are the
hidden ones. -/
theorem dispatchCall_takes (cx : Context) (names : List Ident) (sig : Signature) (callee : Expr)
    (args : List Expr) (callSpan span : Span) :
    (dispatchCall cx names sig callee args callSpan span).Takes fun _ code xs =>
      ∃ w : Wiring, w.Made cx.settings names sig.slots callee args ∧
        code = w.code callSpan span ∧ xs = w.hidden := by
  let states := (atNames names sig.slots).map fun pair => stateOf cx.settings pair.1 pair.2
  have hstates : ((names.zip sig.slots).filterMap fun pair =>
      if pair.1.isBlank then none else some (stateOf cx.settings pair.1.name pair.2)) = states :=
    filterMap_zip_eq fun name slot => stateOf cx.settings name slot
  refine .bind (.emit (Q := fun _ code xs => code = states ∧ xs = []) ⟨hstates, rfl⟩) ?_
  rintro _ _ _ ⟨rfl, rfl⟩
  refine (captureCallee_takes callee).bind ?_
  rintro callee' _ _ ⟨calleeTemps, ⟨rfl, rfl⟩, hcallee⟩
  refine (captureArgs_takes args).bind ?_
  rintro args' _ _ ⟨argTemps, ⟨rfl, rfl⟩, hargs⟩
  let w : Wiring := ⟨states, calleeTemps ++ argTemps, callee', args', none⟩
  refine (taskBody_takes names w callSpan span).bind ?_
  rintro body _ xs ⟨outcome, houtcome, rfl, rfl, hhidden⟩
  refine .bind (.emit (Q := fun _ code xs => code = _ ∧ xs = []) ⟨rfl, rfl⟩) ?_
  rintro _ _ _ ⟨rfl, rfl⟩
  have hmade : { w with outcome }.Made cx.settings names sig.slots callee args :=
    { states := rfl
      captures :=
        { temps := by simp [w, hcallee.map_snd, hargs.map_snd]
          operands := ⟨calleeTemps, argTemps, rfl, hcallee, hargs⟩ }
      outcome := houtcome }
  exact .record ⟨_, hmade, by simp [Wiring.code, w], by simp [hhidden, w]⟩

/-- The parts of the code of a go-binding that is accepted. -/
theorem exists_wiring {cx : Context} {names : List Ident} {call : Expr} {span : Span}
    {supply : NameSupply} (h : (dispatch cx names call span supply).notes.faults = []) :
    ∃ callee args callSpan sig, ∃ w : Wiring, call = .call callee args callSpan ∧
      cx.resolve? callee = some sig ∧ sig.slots.length = names.length ∧
      (dispatch cx names call span supply).code = w.code callSpan span ∧
      w.Made cx.settings names sig.slots callee args ∧
      w.hidden.Nodup ∧ ∀ x ∈ w.hidden, x ∉ supply.used := by
  obtain ⟨callee, args, callSpan, sig, hcall, hsig, hslots, heq⟩ := dispatch_cases h
  obtain ⟨_, htakes, w, hmade, hcode, rfl⟩ :=
    dispatchCall_takes cx names sig callee args callSpan span supply
  rw [heq]
  exact ⟨callee, args, callSpan, sig, w, hcall, hsig, hslots, hcode, hmade, htakes.nodup,
    htakes.new⟩

/-- Nothing is delivered if all names are blank, and only then. -/
theorem Outcome.Follows.eq_none_iff {names : List Ident} {outcome : Option Outcome}
    (h : Outcome.Follows names outcome) : outcome = none ↔ stateNames names = [] := by
  cases h with
  | nothing hnone => simp [hnone]
  | task hsome => simp [hsome]

/-- What an outcome consists of serves the names, each once. -/
theorem Outcome.Follows.delivers {names : List Ident} {outcome : Option Outcome}
    (h : Outcome.Follows names outcome) (hnames : (stateNames names).Nodup) {o : Outcome}
    (ho : outcome = some o)
    (hnew : (o.results.filter fun result => result != "_").Nodup) : o.Delivers names := by
  cases h with
  | nothing => cases ho
  | task _ failure hresults =>
    cases ho
    exact outcomeOf_delivers failure hnames hnew hresults

/-- Parts that are made from names, slots and operands belong to them position by position. -/
theorem Wiring.Made.serves {w : Wiring} {settings : Settings} {names : List Ident}
    {slots : List Ty} {callee : Expr} {args : List Expr}
    (h : w.Made settings names slots callee args) (hslots : slots.length = names.length)
    (hnames : (stateNames names).Nodup) (hhidden : w.hidden.Nodup) :
    w.Serves settings names slots callee args where
  state := by
    intro i name slot hname hslot hblank
    rw [h.states]
    refine filter_key_eq (g := Prod.fst) (fun _ => rfl) ?_ (mem_atNames hname hslot hblank)
    rw [map_fst_atNames hslots]
    exact hnames
  length_states := by
    rw [h.states, List.length_map, ← map_fst_atNames hslots, List.length_map]
  captures := h.captures
  outcome := h.outcome.eq_none_iff
  delivers := by
    intro o ho
    refine h.outcome.delivers hnames ho ?_
    rw [Wiring.hidden, ho] at hhidden
    exact (List.nodup_append.mp hhidden).2.1.of_cons

/-- **The wiring of a go-binding.** A go-binding of distinct names that is accepted is one of a call
with as many slots as there are names. Its code makes one state for each name that is not blank,
captures the callee and the arguments that have to be evaluated once and in order, and starts one
task, which calls the callee on what was captured and sends the result at the position of a name to
the state of that name and to no other, or the recovered failure to every state. The names that it
makes up differ, and none of them is known to the supply. So a bound name that the supply knows is
the name of its state throughout the code. -/
theorem dispatch_wires (cx : Context) (names : List Ident) (call : Expr) (span : Span)
    (supply : NameSupply) (hfaults : (dispatch cx names call span supply).notes.faults = [])
    (hnames : (stateNames names).Nodup) :
    ∃ (callee : Expr) (args : List Expr) (callSpan : Span) (sig : Signature) (w : Wiring),
      call = .call callee args callSpan ∧ cx.resolve? callee = some sig ∧
      sig.slots.length = names.length ∧
      (dispatch cx names call span supply).code = w.code callSpan span ∧
      w.Serves cx.settings names sig.slots callee args ∧
      w.hidden.Nodup ∧ (∀ x ∈ w.hidden, x ∉ supply.used) ∧
      ∀ state ∈ stateNames names, state ∈ supply.used → state ∉ w.hidden := by
  obtain ⟨callee, args, callSpan, sig, w, hcall, hsig, hslots, hcode, hmade, hnodup, hnew⟩ :=
    exists_wiring hfaults
  have hserves := hmade.serves hslots hnames hnodup
  exact ⟨callee, args, callSpan, sig, w, hcall, hsig, hslots, hcode, hserves, hnodup, hnew,
    fun state _ hknown hhidden => hnew state hhidden hknown⟩

/-- The inside of a function with a local `c Client`, in a unit with a method
`fetch(key string, tries int) Result<int>` of `Client`. -/
def fetching : Context where
  table := {
    functions := [("Client.fetch", {
      name := "fetch"
      params := [.named "string", .named "int"]
      returns := { declared := [.named "int"], values := [.named "int"], isResult := true } })] }
  types := [("c", .named "Client")]
  settings := {}

/-- `value, _ := go c.fetch(key, 3)` -/
theorem dispatch_wires_fetch :
    let names : List Ident := [{ name := "value" }, { name := "_" }]
    let call : Expr := .apply ((Expr.name "c").member "fetch") [.name "key", .int 3]
    let supply := NameSupply.avoiding "gx" ["c", "value", "key"]
    let pass := dispatch fetching names call .nowhere supply
    pass.notes.faults = [] ∧ (stateNames names).Nodup ∧
      ∃ (callee : Expr) (args : List Expr) (callSpan : Span) (sig : Signature) (w : Wiring),
        call = .call callee args callSpan ∧ fetching.resolve? callee = some sig ∧
        sig.slots.length = names.length ∧ pass.code = w.code callSpan .nowhere ∧
        w.Serves {} names sig.slots callee args ∧
        w.hidden.Nodup ∧ (∀ x ∈ w.hidden, x ∉ supply.used) ∧
        ∀ state ∈ stateNames names, state ∈ supply.used → state ∉ w.hidden := by
  intro names call supply pass
  have hfaults : pass.notes.faults = [] := rfl
  have hnames : (stateNames names).Nodup := by decide
  exact ⟨hfaults, hnames, dispatch_wires fetching names call .nowhere supply hfaults hnames⟩

/-- `run(func() { gxVal0 := go load() })` -/
def bindingInLiteral : Function where
  name := "bindingInLiteral"
  receiver := none
  params := []
  returns := none
  body := .inserted [.expr (.apply (.name "run") [.func [] none
    (.inserted [.bind [{ name := "gxVal0" }] (.apply (.name "load") []) .nowhere]) .nowhere])]

/-- The names of a function leave out what its function literals bind, so that the supply does not
know it: the task gives its result the name of the state, and the result is put to itself. -/
theorem dispatch_wires_unknown :
    let lowered := lowerFunction loadSignatures {} bindingInLiteral
    let task : List Stmt :=
      [recovery ["gxVal0"] "gxFail0" .nowhere,
        Stmt.define ["gxVal0"] [.apply (.name "load") []],
        .expr (Expr.method "gxVal0" "put" [Expr.name "gxVal0"])]
    "gxVal0" ∉ bindingInLiteral.names ∧ lowered.notes.faults = [] ∧
      lowered.value.body = .inserted [.expr (.apply (.name "run") [.func [] none
        (.inserted [stateOf {} "gxVal0" (.named "int"),
          .go (.apply (.func [] none (.inserted task) .nowhere) []) .nowhere]) .nowhere])] :=
  ⟨by decide, rfl, rfl⟩

end Dispatch

end Desugar
