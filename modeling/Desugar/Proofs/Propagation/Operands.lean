import Desugar.Proofs.Propagation.Order
import Desugar.Proofs.Propagation.Simulation

/-!
# Lowered operands

The rules of simulation for each way in which lowering puts an expression together from its
operands. They assume that the operands are simulated; the recursion over the syntax comes after.
-/

namespace Desugar.Propagation

variable {visible : List String} {s s₁ s₂ : NameSupply} {code code₁ code₂ : List Stmt}
variable {V α : Type} {w : World V}

/-- The zero values that a frame returns beside an error, if it returns a result. -/
def Frame.zeros? (frame : Frame) : Option (List Expr) :=
  if frame.isResult then some frame.zeros else none

namespace Sim

variable {src : Env V → Eval V (List V)} {e : Expr}

/-- A spilled operand keeps its first value, whatever runs after it. -/
theorem spillBefore (later : Bool) (hs : Ready visible s)
    (h : Sim w visible s s₁ code src fun ρ => w.values none ρ e) :
    Sim w visible s (Propagation.spillBefore later e s₁).supply
      (code ++ (Propagation.spillBefore later e s₁).code) (fun ρ => w.first <$> src ρ)
      fun ρ => w.value none ρ (Propagation.spillBefore later e s₁).value := by
  cases later with
  | false => simpa [World.value] using h.map w.first
  | true => exact (h.map w.first).spill hs

/-- An operand and what follows it: it is spilled if code comes between. -/
theorem operand {β γ : Type} {later : Bool} {src₂ tgt₂ : Env V → Eval V β} (hs : Ready visible s)
    (h : Sim w visible s s₁ code src fun ρ => w.values none ρ e)
    (h₂ : Sim w visible (Propagation.spillBefore later e s₁).supply s₂ code₂ src₂ tgt₂)
    (hcode : later = false → code₂ = []) (f : V → β → Eval V γ) :
    Sim w visible s s₂ (code ++ ((Propagation.spillBefore later e s₁).code ++ code₂))
      (fun ρ => w.first <$> src ρ >>= fun a => src₂ ρ >>= f a)
      (fun ρ => w.value none ρ (Propagation.spillBefore later e s₁).value >>= fun a =>
        tgt₂ ρ >>= f a) := by
  rw [← List.append_assoc]
  refine (h.spillBefore later hs).siblings h₂ ?_ f
  cases later with
  | false => exact .inr (hcode rfl)
  | true => exact .inl fun ρ => w.exists_value_of_isPure ρ (isPure_spill e s₁)

/-- A residual may be used with a later supply. -/
theorem weaken {src tgt : Env V → Eval V α} (h : Sim w visible s s₁ code src tgt)
    (ha : s₁.Advances s₂) : Sim w visible s s₂ code src tgt :=
  ⟨h.advances.trans ha, h.run, fun hclear hgrows =>
    h.stable hclear (hgrows.mono fun _ hx => hx.advance ha)⟩

end Sim

/-! ### Made-up names -/

/-- What is known of names that were made up in a row. -/
structure FreshNames (visible : List String) (s s₁ : NameSupply) (xs : List String) : Prop where
  advances : s.Advances s₁
  not_avoided : ∀ x ∈ xs, ¬ Avoided visible s x
  ne_blank : ∀ x ∈ xs, x ≠ "_"
  ne_new : ∀ x ∈ xs, x ≠ "new"
  mem_used : ∀ x ∈ xs, x ∈ s₁.used
  nodup : xs.Nodup

/-- A name that is made up for one of the roles is neither visible nor made up before. -/
theorem freshNames_fresh (hs : Ready visible s) (role : String) (hrole : role ∈ roles) :
    FreshNames visible s (s.fresh role).2 [(s.fresh role).1] where
  advances := s.advances_fresh role
  not_avoided := by simpa using hs.not_avoided_fresh role hrole
  ne_blank := by simpa using fresh_ne_blank role
  ne_new := by simpa using fresh_ne_new role
  mem_used := by simpa using s.mem_used_fresh role
  nodup := List.nodup_singleton _

/-- Names that are made up later differ from the earlier ones. -/
theorem FreshNames.append {xs ys : List String} (h : FreshNames visible s s₁ xs)
    (h' : FreshNames visible s₁ s₂ ys) : FreshNames visible s s₂ (xs ++ ys) where
  advances := h.advances.trans h'.advances
  not_avoided := by
    intro x hx
    rcases List.mem_append.mp hx with hx | hx
    · exact h.not_avoided x hx
    · exact fun havoid => h'.not_avoided x hx (havoid.advance h.advances)
  ne_blank := by simpa [or_imp, forall_and] using ⟨h.ne_blank, h'.ne_blank⟩
  ne_new := by simpa [or_imp, forall_and] using ⟨h.ne_new, h'.ne_new⟩
  mem_used := by
    intro x hx
    rcases List.mem_append.mp hx with hx | hx
    · exact h'.advances.used (h.mem_used x hx)
    · exact h'.mem_used x hx
  nodup := by
    refine List.nodup_append.mpr ⟨h.nodup, h'.nodup, ?_⟩
    rintro x hx y hy rfl
    exact h'.not_avoided x hy (.inl (h.mem_used x hx))

/-- Names that are made up in a row differ from each other and from the visible ones. -/
theorem freshNames_freshList (hs : Ready visible s) (rs : List String)
    (hrs : ∀ role ∈ rs, role ∈ roles) :
    FreshNames visible s (s.freshList rs).2 (s.freshList rs).1 := by
  induction rs generalizing s with
  | nil =>
    exact ⟨.refl s, by simp [NameSupply.freshList], by simp [NameSupply.freshList],
      by simp [NameSupply.freshList], by simp [NameSupply.freshList], List.nodup_nil⟩
  | cons role rs ih =>
    have hfirst := freshNames_fresh hs role (hrs role List.mem_cons_self)
    exact hfirst.append (ih (hs.advance hfirst.advances) fun r hr =>
      hrs r (List.mem_cons_of_mem _ hr))

theorem length_freshList (rs : List String) (s : NameSupply) :
    (s.freshList rs).1.length = rs.length := by
  induction rs generalizing s with
  | nil => rfl
  | cons role rs ih => simp [NameSupply.freshList, ih]

/-! ### Hoisted `try`s -/

/-- A `try` that is hoisted without a fault is applied to a call that may fail, inside a function
that returns a result. -/
theorem of_faults_hoist {cx : Context} {frame : Frame} {keep : Bool} {attempt : Attempt}
    (hf : (hoist cx frame keep attempt s).notes.faults = []) :
    frame.isResult = true ∧ ∃ callee args span sig, attempt.operand = .call callee args span ∧
      cx.resolve? callee = some sig ∧ sig.isResult = true := by
  unfold hoist at hf
  by_cases hframe : frame.isResult
  case neg => simp [hframe] at hf
  case pos =>
    refine ⟨hframe, ?_⟩
    cases hop : attempt.operand with
    | call callee args span =>
      cases hsig : cx.resolve? callee with
      | none => simp [hframe, hop, hsig] at hf
      | some sig =>
        by_cases hresult : sig.isResult
        · exact ⟨callee, args, span, sig, rfl, hsig, hresult⟩
        · simp [hframe, hop, hsig, hresult] at hf
    | _ => simp [hframe, hop] at hf

/-- The names that the values of a hoisted `try` are kept in. -/
def keptNames (keep : Bool) (sig : Signature) (s : NameSupply) : List String × NameSupply :=
  s.freshList (if keep then sig.values.map fun _ => "Val" else [])

/-- What a hoisted `try` amounts to. -/
theorem hoist_eq {cx : Context} {frame : Frame} {callee : Expr} {sig : Signature} (keep : Bool)
    (args : List Expr) (callSpan span : Span) (lowered : Pass Expr) (hframe : frame.isResult = true)
    (hsig : cx.resolve? callee = some sig) (hresult : sig.isResult = true) :
    let step := hoist cx frame keep ⟨.call callee args callSpan, span, lowered⟩ s
    let kept := keptNames keep sig (lowered s).supply
    let error := kept.2.fresh "Err"
    let targets := if keep then kept.1 else sig.values.map fun _ => "_"
    step.value = some (kept.1.map Expr.name) ∧ step.supply = error.2 ∧
      step.code = (lowered s).code ++ [.define (targets ++ [error.1]) [(lowered s).value],
        .onlyIf (.isNotNil error.1) [frame.earlyReturn (.name error.1) span]] ∧
      step.notes.faults = (lowered s).notes.faults := by
  simp [hoist, keptNames, hframe, hsig, hresult]

/-- If a `try` does not return, its values are the first results. -/
theorem attempted_eq (zeros? : Option (List Expr)) (count : Nat) (results : List V) :
    w.attempted zeros? count results = (do
      let _ ← w.attempted zeros? count results
      pure (w.pad count results)) := by
  unfold World.attempted
  cases zeros? with
  | none => rfl
  | some zeros => simp only; split <;> rfl

section Hoist

variable {frame : Frame} {tys : List Ty} {operand : Expr} {span : Span} {lowered : Pass Expr}

/-- A hoisted `try` whose values are kept. -/
theorem hoist_keep (hs : Ready visible s)
    (hzeros : frame.zeros = tys.map (Ty.zero w.context.table.isStruct))
    (hf : (hoist w.context frame true ⟨operand, span, lowered⟩ s).notes.faults = [])
    (hlowered : (lowered s).notes.faults = [] → Sim w visible s (lowered s).supply (lowered s).code
      (fun ρ => w.values frame.zeros? ρ operand) fun ρ => w.values none ρ (lowered s).value) :
    ∃ xs : List String, (hoist w.context frame true ⟨operand, span, lowered⟩ s).value =
        some (xs.map Expr.name) ∧
      (∀ x ∈ xs, x ∉ visible ∧ x ≠ "new") ∧
      Sim w visible s (hoist w.context frame true ⟨operand, span, lowered⟩ s).supply
        (hoist w.context frame true ⟨operand, span, lowered⟩ s).code
        (fun ρ => w.values frame.zeros? ρ (.attempt operand span))
        (fun ρ => pure (xs.map (w.read ρ))) := by
  obtain ⟨hframe, callee, args, callSpan, sig, rfl, hsig, hresult⟩ := of_faults_hoist hf
  obtain ⟨hvalue, hsupply, hcode, hfaults⟩ :=
    hoist_eq (s := s) true args callSpan span lowered hframe hsig hresult
  have hcall := hlowered (hfaults ▸ hf)
  have hs₁ := hs.advance hcall.advances
  have hkept : FreshNames visible (lowered s).supply (keptNames true sig (lowered s).supply).2
      (keptNames true sig (lowered s).supply).1 :=
    freshNames_freshList hs₁ (sig.values.map fun _ => "Val") (by simp [roles])
  have hlength : (keptNames true sig (lowered s).supply).1.length = sig.values.length := by
    rw [keptNames, length_freshList, if_pos rfl, List.length_map]
  have hnames := hkept.append (freshNames_fresh (hs₁.advance hkept.advances) "Err" (by decide))
  rw [hvalue, hsupply, hcode]
  refine ⟨_, rfl, fun x hx => ⟨fun hv => hkept.not_avoided x hx (.inr hv), hkept.ne_new x hx⟩, ?_⟩
  have hsrc : (fun ρ => w.values frame.zeros? ρ (.attempt (.call callee args callSpan) span)) =
      fun ρ => w.values frame.zeros? ρ (.call callee args callSpan) >>= fun results => (do
        let _ ← w.attempted (some (tys.map (Ty.zero w.context.table.isStruct)))
          (keptNames true sig (lowered s).supply).1.length results
        pure (w.pad sig.values.length results)) := by
    funext ρ
    rw [World.values_attempt, w.valueCount_call _ hsig, hlength, ← hzeros, Frame.zeros?,
      if_pos hframe]
    congr 1
    funext results
    exact attempted_eq _ _ _
  rw [hsrc, if_pos rfl, Frame.earlyReturn, hzeros]
  refine hcall.captured _ tys span hnames.advances (fresh_ne_blank _)
    (fun x hx => .inr (hnames.not_avoided x hx)) (fun ρ results => ?_) fun hgrows => ?_
  · rw [w.read_declareAll _ _ _ (fun h => hkept.ne_blank _ h rfl) hnames.nodup, hlength]
  · congr 1
    refine List.map_congr_left fun x hx => ?_
    rw [World.read, World.read, hgrows.get? (.inl (hnames.mem_used x (by simp [hx])))]

/-- A hoisted `try` whose values are not used. -/
theorem hoist_discard (hs : Ready visible s)
    (hzeros : frame.zeros = tys.map (Ty.zero w.context.table.isStruct))
    (hf : (hoist w.context frame false ⟨operand, span, lowered⟩ s).notes.faults = [])
    (hlowered : (lowered s).notes.faults = [] → Sim w visible s (lowered s).supply (lowered s).code
      (fun ρ => w.values frame.zeros? ρ operand) fun ρ => w.values none ρ (lowered s).value) :
    Sim w visible s (hoist w.context frame false ⟨operand, span, lowered⟩ s).supply
      (hoist w.context frame false ⟨operand, span, lowered⟩ s).code
      (fun ρ => do
        let _ ← w.values frame.zeros? ρ (.attempt operand span)
        pure ())
      (fun _ => pure ()) := by
  obtain ⟨hframe, callee, args, callSpan, sig, rfl, hsig, hresult⟩ := of_faults_hoist hf
  obtain ⟨-, hsupply, hcode, hfaults⟩ :=
    hoist_eq (s := s) false args callSpan span lowered hframe hsig hresult
  have hcall := hlowered (hfaults ▸ hf)
  have herror := freshNames_fresh (hs.advance hcall.advances) "Err" (by decide)
  have hsrc : (fun ρ => do
        let _ ← w.values frame.zeros? ρ (.attempt (.call callee args callSpan) span)
        pure ()) =
      fun ρ => w.values frame.zeros? ρ (.call callee args callSpan) >>= fun results => (do
        let _ ← w.attempted (some (tys.map (Ty.zero w.context.table.isStruct)))
          (sig.values.map fun _ => "_").length results
        pure ()) := by
    funext ρ
    rw [World.values_attempt, w.valueCount_call _ hsig, bind_assoc, List.length_map, ← hzeros,
      Frame.zeros?, if_pos hframe]
  rw [hsrc, hsupply, hcode, if_neg Bool.false_ne_true, Frame.earlyReturn, hzeros]
  refine hcall.captured _ tys span herror.advances (fresh_ne_blank _) (fun x hx => ?_)
    (fun _ _ => rfl) fun _ => rfl
  rcases List.mem_append.mp hx with hx | hx
  · exact .inl (by simpa using (List.mem_map.mp hx).choose_spec.2.symm)
  · exact .inr (herror.not_avoided x hx)

/-- If two computations report no fault, neither of them does. -/
theorem faults_of_bind {β : Type} {p : Pass α} {f : α → Pass β}
    (hf : ((p >>= f) s).notes.faults = []) :
    (p s).notes.faults = [] ∧ (f (p s).value (p s).supply).notes.faults = [] := by
  simpa using hf

/-- A `try` in the place of one value. -/
theorem attemptValue_sim (hs : Ready visible s)
    (hzeros : frame.zeros = tys.map (Ty.zero w.context.table.isStruct))
    (hf : (attemptValue w.context frame ⟨operand, span, lowered⟩ s).notes.faults = [])
    (hlowered : (lowered s).notes.faults = [] → Sim w visible s (lowered s).supply (lowered s).code
      (fun ρ => w.values frame.zeros? ρ operand) fun ρ => w.values none ρ (lowered s).value) :
    ∃ x, (attemptValue w.context frame ⟨operand, span, lowered⟩ s).value = .name x ∧
      (x ∉ visible ∧ x ≠ "new") ∧
      Sim w visible s (attemptValue w.context frame ⟨operand, span, lowered⟩ s).supply
        (attemptValue w.context frame ⟨operand, span, lowered⟩ s).code
        (fun ρ => w.values frame.zeros? ρ (.attempt operand span))
        (fun ρ => w.values none ρ (.name x)) := by
  unfold attemptValue at hf ⊢
  obtain ⟨hhoist, hf⟩ := faults_of_bind hf
  obtain ⟨xs, hvalue, hxs, hsim⟩ := hoist_keep hs hzeros hhoist hlowered
  rw [hvalue] at hf
  match xs with
  | [] => simp at hf
  | [x] =>
    refine ⟨x, ?_, hxs x (by simp), ?_⟩
    · simp [hvalue]
    · simpa [hvalue] using hsim
  | _ :: _ :: _ => simp at hf

/-- A `try` in the place of several values. -/
theorem attemptValues_sim (hs : Ready visible s) {expected : Nat}
    (hzeros : frame.zeros = tys.map (Ty.zero w.context.table.isStruct))
    (hf : (attemptValues w.context frame expected ⟨operand, span, lowered⟩ s).notes.faults = [])
    (hlowered : (lowered s).notes.faults = [] → Sim w visible s (lowered s).supply (lowered s).code
      (fun ρ => w.values frame.zeros? ρ operand) fun ρ => w.values none ρ (lowered s).value) :
    ∃ xs : List String,
      (attemptValues w.context frame expected ⟨operand, span, lowered⟩ s).value =
        xs.map Expr.name ∧ xs.length = expected ∧
      Sim w visible s (attemptValues w.context frame expected ⟨operand, span, lowered⟩ s).supply
        (attemptValues w.context frame expected ⟨operand, span, lowered⟩ s).code
        (fun ρ => w.values frame.zeros? ρ (.attempt operand span))
        (fun ρ => pure (xs.map (w.read ρ))) := by
  unfold attemptValues at hf ⊢
  obtain ⟨hhoist, hf⟩ := faults_of_bind hf
  obtain ⟨xs, hvalue, -, hsim⟩ := hoist_keep hs hzeros hhoist hlowered
  rw [hvalue] at hf
  by_cases hlength : xs.length = expected
  · refine ⟨xs, ?_, hlength, ?_⟩
    · simp [hvalue, hlength]
    · simpa [hvalue, hlength] using hsim
  · simp [hlength] at hf

end Hoist

/-! ### Calls -/

/-- The expression can be part of a call `new(T)`. -/
def isAllocationPart : Expr → Bool
  | .ofType _ _ | .ident "new" _ => true
  | _ => false

/-- Lowering makes no part of a call `new(T)` out of anything else. -/
theorem lowerExpr_eq_of_isAllocationPart (cx : Context) (frame : Frame) (e : Expr) (s : NameSupply)
    (h : isAllocationPart (lowerExpr cx frame e s).value = true) :
    (lowerExpr cx frame e s).value = e := by
  have hname : ∀ x, x ≠ "new" → isAllocationPart (.name x) = false := by
    intro x hx
    simp [isAllocationPart, Expr.name, hx]
  cases e with
  | attempt operand span =>
    rw [lowerExpr] at h
    rcases attemptValue_value cx frame _ s with hnil | ⟨x, hx, hne⟩
    · rw [hnil] at h
      cases h
    · rw [hx, hname x hne] at h
      cases h
  | binary op left right span =>
    rw [lowerExpr] at h
    split at h
    · simp only [Pass.value_bind, Pass.value_pure, Pass.value_fresh] at h
      rw [hname _ (fresh_ne_new _)] at h
      cases h
    · cases h
  | ident | lit | ofType => rfl
  | _ => cases h

/-- Only a call that is written `new(T)` allocates. -/
theorem allocated?_eq_some {callee : Expr} {args : List Expr} {ty : Ty}
    (h : allocated? callee args = some ty) :
    ∃ span span', callee = .ident "new" span ∧ args = [.ofType ty span'] := by
  unfold allocated? at h
  split at h
  · cases h
    exact ⟨_, _, rfl, rfl⟩
  · cases h

/-- Each sibling operand has a value. -/
theorem length_lowerOrdered (cx : Context) (frame : Frame) (es : List Expr) (s : NameSupply) :
    (lowerOrdered cx frame es s).value.length = es.length := by
  induction es generalizing s with
  | nil => rfl
  | cons e rest ih => simp [lowerOrdered, ih]

/-- Lowering makes no call `new(T)` out of another call. -/
theorem allocated?_lower {cx : Context} {frame : Frame} {callee : Expr} {args : List Expr}
    (h : allocated? callee args = none) (s s₁ s₂ : NameSupply) :
    allocated?
      (spillBefore (args.any Expr.containsAttempt) (lowerExpr cx frame callee s).value s₁).value
      (lowerOrdered cx frame args s₂).value = none := by
  cases hlowered : allocated? _ _ with
  | none => rfl
  | some ty =>
    obtain ⟨span, span', hcallee, hargs⟩ := allocated?_eq_some hlowered
    have hlength := length_lowerOrdered cx frame args s₂
    rw [hargs] at hlength
    match args, hlength with
    | [arg], _ =>
      have harg : (lowerExpr cx frame arg s₂).value = .ofType ty span' := by
        simpa [lowerOrdered] using hargs
      have harg' := lowerExpr_eq_of_isAllocationPart cx frame arg s₂ (by rw [harg]; rfl)
      obtain rfl : arg = .ofType ty span' := by rw [← harg', harg]
      have hcallee : (lowerExpr cx frame callee s).value = .ident "new" span := hcallee
      have hcallee' := lowerExpr_eq_of_isAllocationPart cx frame callee s (by rw [hcallee]; rfl)
      obtain rfl : callee = .ident "new" span := by rw [← hcallee', hcallee]
      cases h

end Desugar.Propagation
