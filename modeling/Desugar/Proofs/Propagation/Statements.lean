import Desugar.Proofs.Propagation.Operands

/-!
# Simulation of statements

Statements change the variables, so what is run in their place has to leave variables behind that
look the same. `Agree` relates a computation of the source to one of the lowered code that starts
in an environment which looks the same, again by what can follow them.

- `Agree.storeAll`: storing at the same places keeps environments alike. A place that is a hidden
  variable in the lowered code is nowhere in the source.
- `Sim.agree`: a statement whose operands are simulated.
-/

namespace Desugar.Propagation

variable {visible : List String} {s s₁ s₂ : NameSupply} {code : List Stmt}
variable {V α : Type} {w : World V} {ρ ρ' : Env V}

/-- The computations do the same and leave environments behind that look the same. -/
structure Agree (w : World V) (visible : List String) (ρ ρ' : Env V) (x y : Eval V (Env V)) :
    Prop where
  bind_eq : ∀ {δ : Type} {k k' : Env V → Eval V δ},
    (∀ {ρ₁ ρ₁' : Env V}, Alike w visible ρ₁ ρ₁' → ρ.Under ρ₁ → ρ'.Under ρ₁' → k ρ₁ = k' ρ₁') →
      x >>= k = y >>= k'

namespace Agree

variable {x y : Eval V (Env V)}

theorem pure {ρ₁ ρ₁' : Env V} (h : Alike w visible ρ₁ ρ₁') (hu : ρ.Under ρ₁) (hu' : ρ'.Under ρ₁') :
    Agree w visible ρ ρ' (Pure.pure ρ₁) (Pure.pure ρ₁') := by
  constructor
  intro δ k k' hk
  rw [pure_bind, pure_bind, hk h hu hu']

/-- To leave in the same way is to do the same. -/
theorem leave (exit : Exit V) : Agree w visible ρ ρ' (.leave exit) (.leave exit) :=
  ⟨fun _ => rfl⟩

/-- Computations that agree may be followed by ones that agree. -/
theorem bind {f g : Env V → Eval V (Env V)} (h : Agree w visible ρ ρ' x y)
    (hfg : ∀ {ρ₁ ρ₁' : Env V}, Alike w visible ρ₁ ρ₁' → ρ.Under ρ₁ → ρ'.Under ρ₁' →
      Agree w visible ρ₁ ρ₁' (f ρ₁) (g ρ₁')) :
    Agree w visible ρ ρ' (x >>= f) (y >>= g) := by
  constructor
  intro δ k k' hk
  rw [bind_assoc, bind_assoc]
  refine h.bind_eq fun halike hu hu' => ?_
  exact (hfg halike hu hu').bind_eq fun halike₁ hu₁ hu₁' =>
    hk halike₁ (hu.trans hu₁) (hu'.trans hu₁')

/-- Both sides go on with the same result. -/
theorem after (z : Eval V α) {f g : α → Eval V (Env V)}
    (hfg : ∀ a, Agree w visible ρ ρ' (f a) (g a)) : Agree w visible ρ ρ' (z >>= f) (z >>= g) := by
  constructor
  intro δ k k' hk
  rw [bind_assoc, bind_assoc]
  congr 1
  funext a
  exact (hfg a).bind_eq hk

/-- Both sides go on with the same places, the variables among which are written names. -/
theorem afterPlaces {es : List Expr} {f g : List (Place V) → Eval V (Env V)}
    (hfg : ∀ ps, (∀ x, .name x ∈ ps → ∃ span, .ident x span ∈ es) →
      Agree w visible ρ ρ' (f ps) (g ps)) :
    Agree w visible ρ ρ' (w.places none ρ' es >>= f) (w.places none ρ' es >>= g) := by
  constructor
  intro δ k k' hk
  rw [bind_assoc, bind_assoc]
  exact w.places_congr _ _ fun ps hps => (hfg ps hps).bind_eq hk

/-- The end of a block. -/
theorem restore (halike : Alike w visible ρ ρ') (h : Agree w visible ρ ρ' x y) :
    Agree w visible ρ ρ' (x >>= fun later => Pure.pure (ρ.restore later))
      (y >>= fun later => Pure.pure (ρ'.restore later)) := by
  constructor
  intro δ k k' hk
  rw [bind_assoc, bind_assoc]
  refine h.bind_eq fun halike₁ hu hu' => ?_
  rw [pure_bind, pure_bind]
  exact hk (halike.restore halike₁ hu hu') hu.restore hu'.restore

end Agree

/-- Declarations in both environments keep them alike. -/
theorem alike_declareAll (h : Alike w visible ρ ρ') {xs : List String}
    (hxs : ∀ x ∈ xs, x ∉ w.context.settings.globals) (vs : List V) :
    Alike w visible (w.declareAll ρ xs vs) (w.declareAll ρ' xs vs) := by
  induction xs generalizing ρ ρ' vs with
  | nil => exact h
  | cons x xs ih =>
    obtain ⟨hx, hxs⟩ := List.forall_mem_cons.mp hxs
    exact ih (h.declare hx _) hxs _

/-- Declarations add variables in front. -/
theorem under_declareAll (ρ : Env V) (xs : List String) (vs : List V) :
    ρ.Under (w.declareAll ρ xs vs) := by
  induction xs generalizing ρ vs with
  | nil => exact .refl ρ
  | cons x xs ih => exact ((Env.Under.refl ρ).declare x _).trans (ih _ _)

theorem Agree.declareAll (h : Alike w visible ρ ρ') {xs : List String}
    (hxs : ∀ x ∈ xs, x ∉ w.context.settings.globals) (vs : List V) :
    Agree w visible ρ ρ' (Pure.pure (w.declareAll ρ xs vs)) (Pure.pure (w.declareAll ρ' xs vs)) :=
  .pure (alike_declareAll h hxs vs) (under_declareAll ρ xs vs) (under_declareAll ρ' xs vs)

/-- A name of the lowered code that is not visible is nowhere in the source. -/
def hide (visible : List String) : Place V → Place V
  | .name x => if x ∈ visible then .name x else .nowhere
  | p => p

/-- Storing at a place agrees with storing at the lowered place, since a hidden name is nowhere. -/
theorem Agree.store (h : Alike w visible ρ ρ') {op : AssignOp} {p : Place V}
    (hdefine : op = .define → ∀ x ∈ visible, p = .name x → x ∉ w.context.settings.globals) (v : V) :
    Agree w visible ρ ρ' (w.store op ρ (hide visible p) v) (w.store op ρ' p v) := by
  have hact : ∀ action : Action V, Agree w visible ρ ρ'
      (w.act action >>= fun _ => Pure.pure ρ) (w.act action >>= fun _ => Pure.pure ρ') :=
    fun action => .after _ fun _ => .pure h (.refl ρ) (.refl ρ')
  cases p with
  | name x =>
    by_cases hx : x ∈ visible
    · have hread : w.read ρ x = w.read ρ' x := by rw [World.read, World.read, h.get? hx]
      rw [hide, if_pos hx]
      cases op with
      | define =>
        exact .pure (h.declare (hdefine rfl x hx rfl) v) ((Env.Under.refl ρ).declare x v)
          (.declare (.refl ρ') x v)
      | store => exact .pure (h.set x v) ((Env.Under.refl ρ).set x v) (.set (.refl ρ') x v)
      | update op =>
        simp only [World.store, hread]
        exact .pure (h.set x _) ((Env.Under.refl ρ).set x _) (.set (.refl ρ') x _)
    · rw [hide, if_neg hx]
      cases op with
      | define =>
        exact .pure (h.trans (.declare_hidden hx ρ' v)) (.refl ρ) (.declare (.refl ρ') x v)
      | store => exact .pure (h.trans (.set_hidden hx ρ' v)) (.refl ρ) (.set (.refl ρ') x v)
      | update op => exact .pure (h.trans (.set_hidden hx ρ' _)) (.refl ρ) (.set (.refl ρ') x _)
  | nowhere => exact .pure h (.refl ρ) (.refl ρ')
  | index base index => exact hact _
  | field base field => exact hact _
  | deref pointer => exact hact _

/-- Storing at several places agrees from left to right. -/
theorem Agree.storeAll (h : Alike w visible ρ ρ') {op : AssignOp} {ps : List (Place V)}
    (hdefine : op = .define → ∀ x ∈ visible, .name x ∈ ps → x ∉ w.context.settings.globals)
    (vs : List V) :
    Agree w visible ρ ρ' (w.storeAll op ρ (ps.map (hide visible)) vs) (w.storeAll op ρ' ps vs) := by
  induction ps generalizing ρ ρ' vs with
  | nil => exact .pure h (.refl ρ) (.refl ρ')
  | cons p ps ih =>
    have hfirst := Agree.store h (fun hop x hx hp => hdefine hop x hx (hp ▸ List.mem_cons_self))
      (w.first vs)
    exact hfirst.bind fun halike _ _ =>
      ih halike (fun hop x hx hp => hdefine hop x hx (List.mem_cons_of_mem _ hp)) _

/-- What follows operands that are simulated by code and residuals. -/
theorem Sim.agree {src tgt : Env V → Eval V α} {f : α → Eval V (Env V)}
    {g : Env V → Eval V (Env V)} (h : Sim w visible s s₁ code src tgt)
    (halike : Alike w visible ρ ρ')
    (hfg : ∀ {later : Env V}, Alike w visible ρ later →
      Agree w visible ρ later (tgt later >>= f) (g later)) :
    Agree w visible ρ ρ' (src ρ >>= f) (w.stmts none ρ' code >>= g) := by
  constructor
  intro δ k k' hk
  rw [bind_assoc, bind_assoc]
  refine h.run halike fun later hgrows => ?_
  rw [← bind_assoc]
  exact (hfg (halike.grows hgrows)).bind_eq fun halike₁ hu hu' =>
    hk halike₁ hu (hgrows.under.trans hu')

/-- Lowered code runs as the source does. -/
structure Runs (w : World V) (visible : List String) (s s₁ : NameSupply)
    (src tgt : Env V → Eval V (Env V)) : Prop where
  advances : s.Advances s₁
  agree : ∀ {ρ ρ' : Env V}, Alike w visible ρ ρ' → Agree w visible ρ ρ' (src ρ) (tgt ρ')

theorem Runs.congr {src tgt src' tgt' : Env V → Eval V (Env V)} (h : Runs w visible s s₁ src tgt)
    (hsrc : ∀ ρ, src' ρ = src ρ) (htgt : ∀ ρ, tgt' ρ = tgt ρ) : Runs w visible s s₁ src' tgt' := by
  obtain rfl : src' = src := funext hsrc
  obtain rfl : tgt' = tgt := funext htgt
  exact h

/-- A statement whose operands are simulated. -/
theorem Sim.runs {src tgt : Env V → Eval V α} {f : Env V → α → Eval V (Env V)} {stmt : Stmt}
    (h : Sim w visible s s₁ code src tgt)
    (hf : ∀ {ρ ρ' : Env V}, Alike w visible ρ ρ' →
      Agree w visible ρ ρ' (tgt ρ' >>= f ρ) (w.stmt none ρ' stmt)) :
    Runs w visible s s₁ (fun ρ => src ρ >>= f ρ) fun ρ => w.stmts none ρ (code ++ [stmt]) where
  advances := h.advances
  agree := by
    intro ρ ρ' halike
    simp only [World.stmts_append, World.stmts_singleton]
    exact h.agree halike hf

/-- An assignment to places, the hidden ones of which are nowhere in the source. If it declares
variables, then none of them hides something global. -/
theorem Sim.assign {targets targets' es es' : List Expr} {z : Option (List Expr)}
    {op : AssignOp} (span : Span)
    (hdefine : op = .define → ∀ x ∈ visible, ∀ span, .ident x span ∈ targets' →
      x ∉ w.context.settings.globals)
    (h : Sim w visible s s₁ code
      (fun ρ => w.places z ρ targets >>= fun ps => w.operands z ρ es >>= fun vs => pure (ps, vs))
      fun ρ => (·.map (hide visible)) <$> w.places none ρ targets' >>= fun ps =>
        w.operands none ρ es' >>= fun vs => pure (ps, vs)) :
    Runs w visible s s₁ (fun ρ => w.stmt z ρ (.assign targets op es span))
      fun ρ => w.stmts none ρ (code ++ [.assign targets' op es' span]) := by
  refine (h.runs (f := fun ρ p => w.storeAll op ρ p.1 p.2) fun {ρ ρ'} halike => ?_).congr
    (fun ρ => ?_) fun _ => rfl
  · simp only [bind_map_left, bind_assoc, pure_bind, w.stmt_assign]
    refine .afterPlaces fun ps hps => .after _ fun vs => .storeAll halike (fun hop x hx hp => ?_) vs
    obtain ⟨span, hident⟩ := hps x hp
    exact hdefine hop x hx span hident
  · simp only [bind_assoc, pure_bind, w.stmt_assign]

/-- A return runs as in the source if the returned values are simulated. -/
theorem Sim.ret {es es' : List Expr} {z : Option (List Expr)} (span : Span)
    (h : Sim w visible s s₁ code (fun ρ => w.returns z ρ es) fun ρ => w.operands none ρ es') :
    Runs w visible s s₁ (fun ρ => w.stmt z ρ (.ret es span))
      fun ρ => w.stmts none ρ (code ++ [.ret es' span]) := by
  refine (h.runs (f := fun _ vs => .leave (.returned vs)) fun {ρ ρ'} _ => ?_).congr
    (fun ρ => w.stmt_ret z ρ span es) fun _ => rfl
  rw [w.stmt_ret]
  exact .after _ fun vs => .leave (.returned vs)

/-- A thrown error is returned beside zero values. -/
theorem Sim.throw {value error : Expr} {isStruct : String → Bool} {tys : List Ty} (span : Span)
    (h : Sim w visible s s₁ code
      (fun ρ => w.errors (some (tys.map (Ty.zero isStruct))) ρ value)
      fun ρ => w.values none ρ error) :
    Runs w visible s s₁ (fun ρ => w.stmt (some (tys.map (Ty.zero isStruct))) ρ (.throw value span))
      fun ρ => w.stmts none ρ (code ++ [.ret (tys.map (Ty.zero isStruct) ++ [error]) span]) := by
  refine (h.runs (f := fun _ errors =>
    .leave (.returned (w.thrown (some (tys.map (Ty.zero isStruct))) errors)))
    fun {ρ ρ'} halike => ?_).congr (fun ρ => w.stmt_throw _ ρ span value) fun _ => rfl
  rw [w.stmt_ret_zeros (halike.clear.get? List.mem_cons_self)]
  exact .after _ fun vs => .leave _

end Desugar.Propagation
