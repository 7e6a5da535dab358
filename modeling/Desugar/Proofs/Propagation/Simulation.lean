import Desugar.Proofs.Meaning.Rules
import Desugar.Proofs.Propagation.Names

/-!
# Simulation of operands by hoisted code

Lowering an operand leaves behind code that runs first, and a residual that is evaluated in the
place of the operand. `Sim` states that both together do what the operand does. The residual may be
evaluated later than the code, after more hidden variables have been declared, so the statement is
about everything that can follow: if the rest of the program agrees with what follows the residual
in every environment that the code can lead to, then it agrees with what follows the operand.

Inserted code mentions names that stand for something global, and it finds that only where no
variable has such a name. This is part of `Alike`, the relation between the environments of the
source and of the lowered code.

- `Sim.bind` and `Sim.seq` put operands together, the latter when code of the second operand comes
  between the first residual and its use. The first residual must not act then.
- `Sim.spill`, `Sim.capture` and `Sim.guard` are the three ways in which code is inserted.
-/

namespace Desugar.Propagation

/-- No visible name will be made up. -/
def Ready (visible : List String) (s : NameSupply) : Prop :=
  ∀ x ∈ visible, x ∈ s.used ∨ ∀ role ∈ roles, ∀ n, x ≠ s.candidate role n

/-- The name is visible or was made up before. -/
def Avoided (visible : List String) (s : NameSupply) (x : String) : Prop :=
  x ∈ s.used ∨ x ∈ visible

variable {visible : List String} {s s₁ s₂ : NameSupply}

/-- A supply goes on making up no visible name. -/
theorem Ready.advance (h : Ready visible s) (ha : s.Advances s₁) : Ready visible s₁ := by
  intro x hx
  rcases h x hx with hused | hnew
  · exact .inl (ha.used hused)
  · refine .inr fun role hrole n => ?_
    rw [NameSupply.candidate, ha.stem]
    exact hnew role hrole n

/-- A name that is made up is neither visible nor made up before. -/
theorem Ready.not_avoided_fresh (h : Ready visible s) (role : String) (hrole : role ∈ roles) :
    ¬ Avoided visible s (s.fresh role).1 := by
  rintro (hused | hvisible)
  · exact s.fresh_not_mem role hused
  · rcases h _ hvisible with hused | hnew
    · exact s.fresh_not_mem role hused
    · obtain ⟨n, hn⟩ := s.exists_fresh_eq_candidate role
      exact hnew role hrole n hn

/-- What is avoided goes on being avoided. -/
theorem Avoided.advance {x : String} (h : Avoided visible s x) (ha : s.Advances s₁) :
    Avoided visible s₁ x :=
  h.imp_left fun hused => ha.used hused

theorem fresh_ne_blank (role : String) : (s.fresh role).1 ≠ "_" :=
  s.candidate_ne role _ (by decide)

/-- A made-up name does not hide `new`. -/
theorem fresh_ne_new (role : String) : (s.fresh role).1 ≠ "new" :=
  s.candidate_ne role _ (by decide)

variable {V α β γ : Type} {w : World V}

/-- The names that stand for something global are visible, and none of them is a variable. -/
structure Clear (w : World V) (visible : List String) (ρ : Env V) : Prop where
  known : ∀ x ∈ w.context.settings.globals, x ∈ visible
  free : ρ.Free w.context.settings.globals

/-- The environments have the same visible variables, and these hide nothing global. -/
structure Alike (w : World V) (visible : List String) (ρ ρ' : Env V) : Prop
    extends Clear w visible ρ where
  same : ρ.Alike visible ρ'

namespace Alike

variable {ρ ρ' ρ₁ ρ₁' later : Env V}

/-- Visible names have the same values in both environments. -/
theorem get? (h : Alike w visible ρ ρ') {x : String} (hx : x ∈ visible) : ρ.get? x = ρ'.get? x :=
  h.same.get? hx

/-- What is global to the source is so to the lowered code. -/
theorem clear (h : Alike w visible ρ ρ') : Clear w visible ρ' :=
  ⟨h.known, h.free.of_alike h.same h.known⟩

theorem trans (h : Alike w visible ρ ρ') (h' : ρ'.Alike visible ρ₁) : Alike w visible ρ ρ₁ :=
  ⟨h.toClear, h.same.trans h'⟩

/-- Hidden variables change nothing. -/
theorem grows (h : Alike w visible ρ ρ') (hgrows : ρ'.Grows (Avoided visible s) later) :
    Alike w visible ρ later :=
  h.trans (hgrows.alike fun _ => .inr)

/-- A declaration in both environments keeps them alike, unless it hides something global. -/
theorem declare (h : Alike w visible ρ ρ') {x : String} (hx : x ∉ w.context.settings.globals)
    (v : V) : Alike w visible (ρ.declare x v) (ρ'.declare x v) :=
  ⟨⟨h.known, h.free.declare hx v⟩, h.same.declare x v⟩

theorem set (h : Alike w visible ρ ρ') (x : String) (v : V) :
    Alike w visible (ρ.set x v) (ρ'.set x v) :=
  ⟨⟨h.known, h.free.set x v⟩, h.same.set x v⟩

/-- Leaving a block in both environments keeps them alike. -/
theorem restore (h : Alike w visible ρ ρ') (h₁ : Alike w visible ρ₁ ρ₁') (hu : ρ.Under ρ₁)
    (hu' : ρ'.Under ρ₁') : Alike w visible (ρ.restore ρ₁) (ρ'.restore ρ₁') :=
  ⟨⟨h.known, h.free.restore hu⟩, h.same.restore h₁.same hu hu'⟩

end Alike

namespace Clear

variable {ρ later : Env V}

protected theorem refl (h : Clear w visible ρ) : Alike w visible ρ ρ := ⟨h, .refl ρ⟩

/-- Made-up variables are not seen. -/
theorem grows (h : Clear w visible ρ) (hgrows : ρ.Grows (Avoided visible s) later) :
    Alike w visible ρ later :=
  h.refl.grows hgrows

/-- A global name stands for no variable. -/
theorem get? (h : Clear w visible ρ) {x : String} (hx : x ∈ w.context.settings.globals) :
    ρ.get? x = none :=
  h.free.get? hx

end Clear

/-- Running `code` and then evaluating the residual `tgt` does what `src` does. -/
structure Sim (w : World V) (visible : List String) (s s₁ : NameSupply) (code : List Stmt)
    (src tgt : Env V → Eval V α) : Prop where
  advances : s.Advances s₁
  run : ∀ {δ : Type} {ρ ρ' : Env V} {k : α → Eval V δ} {k' : Env V → Eval V δ},
    Alike w visible ρ ρ' →
    (∀ later, ρ'.Grows (Avoided visible s) later → tgt later >>= k = k' later) →
    src ρ >>= k = w.stmts none ρ' code >>= k'
  /-- Names that are made up later do not change the residual. -/
  stable : ∀ {ρ later : Env V}, Clear w visible ρ → ρ.Grows (Avoided visible s₁) later →
    tgt later = tgt ρ

namespace Sim

variable {code code₁ code₂ : List Stmt} {src tgt : Env V → Eval V α}

/-- An operand that looks at visible names only needs no code. -/
theorem plain (ha : s.Advances s₁)
    (h : ∀ {ρ ρ' : Env V}, Alike w visible ρ ρ' → src ρ = tgt ρ') :
    Sim w visible s s₁ [] src tgt where
  advances := ha
  run := by
    intro δ ρ ρ' k k' halike hk
    rw [h halike, World.stmts_nil, pure_bind, hk ρ' .refl]
  stable := by
    intro ρ later hclear hgrows
    rw [← h (hclear.grows hgrows), h hclear.refl]

/-- Without code the residual does what the operand does. -/
theorem eq_of_no_code (h : Sim w visible s s₁ [] src tgt) {ρ ρ' : Env V}
    (halike : Alike w visible ρ ρ') : src ρ = tgt ρ' := by
  have hrun : src ρ >>= pure = w.stmts none ρ' [] >>= fun later => tgt later >>= pure :=
    h.run halike fun _ _ => rfl
  simpa using hrun

/-- An operand without code is simulated from any supply. -/
theorem still (h : Sim w visible s s₁ [] src tgt) (s₂ : NameSupply) :
    Sim w visible s₂ s₂ [] src tgt :=
  .plain (.refl s₂) h.eq_of_no_code

theorem of_code {code' : List Stmt} (h : Sim w visible s s₁ code src tgt) (hcode : code' = code) :
    Sim w visible s s₁ code' src tgt :=
  hcode ▸ h

/-- What is simulated may be written in another way. -/
theorem congr {code' : List Stmt} {src' tgt' : Env V → Eval V α}
    (h : Sim w visible s s₁ code src tgt) (hsrc : ∀ ρ, src' ρ = src ρ) (htgt : ∀ ρ, tgt' ρ = tgt ρ)
    (hcode : code' = code) : Sim w visible s s₁ code' src' tgt' := by
  obtain rfl : src' = src := funext hsrc
  obtain rfl : tgt' = tgt := funext htgt
  exact h.of_code hcode

/-- What follows an operand without inserting code. -/
theorem bind (h : Sim w visible s s₁ code src tgt) {f g : Env V → α → Eval V β}
    (hfg : ∀ {ρ ρ' : Env V} (a : α), Alike w visible ρ ρ' → f ρ a = g ρ' a) :
    Sim w visible s s₁ code (fun ρ => src ρ >>= f ρ) (fun ρ => tgt ρ >>= g ρ) where
  advances := h.advances
  run := by
    intro δ ρ ρ' k k' halike hk
    rw [bind_assoc]
    refine h.run halike fun later hgrows => ?_
    rw [← hk later hgrows, bind_assoc]
    congr 1
    funext a
    rw [hfg a (halike.grows hgrows)]
  stable := by
    intro ρ later hclear hgrows
    show tgt later >>= g later = tgt ρ >>= g ρ
    rw [h.stable hclear hgrows]
    congr 1
    funext a
    rw [← hfg a (hclear.grows hgrows), hfg a hclear.refl]

/-- A function of the results is simulated along with them. -/
theorem map (h : Sim w visible s s₁ code src tgt) (f : α → β) :
    Sim w visible s s₁ code (fun ρ => f <$> src ρ) (fun ρ => f <$> tgt ρ) := by
  simpa only [map_eq_pure_bind] using h.bind (f := fun _ a => pure (f a)) fun _ _ => rfl

/-- Code of a second operand runs before the first residual is used, which acts on nothing. -/
theorem seq {src₁ tgt₁ : Env V → Eval V α} {src₂ tgt₂ : Env V → Eval V β}
    (h₁ : Sim w visible s s₁ code₁ src₁ tgt₁) (hpure : ∀ ρ, ∃ a, tgt₁ ρ = pure a)
    (h₂ : Sim w visible s₁ s₂ code₂ src₂ tgt₂) (f : α → β → Eval V γ) :
    Sim w visible s s₂ (code₁ ++ code₂) (fun ρ => src₁ ρ >>= fun a => src₂ ρ >>= f a)
      (fun ρ => tgt₁ ρ >>= fun a => tgt₂ ρ >>= f a) where
  advances := h₁.advances.trans h₂.advances
  run := by
    intro δ ρ ρ' k k' halike hk
    rw [World.stmts_append, bind_assoc, bind_assoc]
    refine h₁.run halike fun ρ₁ hgrows₁ => ?_
    obtain ⟨a, ha⟩ := hpure ρ₁
    rw [ha, pure_bind, bind_assoc]
    have halike₁ := halike.grows hgrows₁
    refine h₂.run halike₁ fun ρ₂ hgrows₂ => ?_
    have hgrows : ρ'.Grows (Avoided visible s) ρ₂ :=
      hgrows₁.trans (hgrows₂.mono fun x hx => hx.advance h₁.advances)
    rw [← hk ρ₂ hgrows, h₁.stable halike₁.clear hgrows₂, ha, pure_bind, bind_assoc]
  stable := by
    intro ρ later hclear hgrows
    have hgrows₁ := hgrows.mono fun x (hx : Avoided visible s₁ x) => hx.advance h₂.advances
    show tgt₁ later >>= _ = tgt₁ ρ >>= _
    rw [h₁.stable hclear hgrows₁, h₂.stable hclear hgrows]

/-- Sibling operands: either the first residual acts on nothing, or the second inserts no code. -/
theorem siblings {src₁ tgt₁ : Env V → Eval V α} {src₂ tgt₂ : Env V → Eval V β}
    (h₁ : Sim w visible s s₁ code₁ src₁ tgt₁) (h₂ : Sim w visible s₁ s₂ code₂ src₂ tgt₂)
    (h : (∀ ρ, ∃ a, tgt₁ ρ = pure a) ∨ code₂ = []) (f : α → β → Eval V γ) :
    Sim w visible s s₂ (code₁ ++ code₂) (fun ρ => src₁ ρ >>= fun a => src₂ ρ >>= f a)
      (fun ρ => tgt₁ ρ >>= fun a => tgt₂ ρ >>= f a) := by
  rcases h with hpure | hnil
  · exact h₁.seq hpure h₂ f
  · subst hnil
    have hbind := h₁.bind (f := fun ρ a => src₂ ρ >>= f a) (g := fun ρ a => tgt₂ ρ >>= f a)
      fun a halike => by rw [h₂.eq_of_no_code halike]
    rw [List.append_nil]
    exact ⟨h₁.advances.trans h₂.advances, hbind.run, fun hclear hgrows =>
      hbind.stable hclear (hgrows.mono fun x hx => hx.advance h₂.advances)⟩

/-- A residual is kept in a hidden variable. -/
theorem define {src : Env V → Eval V V} {e : Expr} {x : String}
    (h : Sim w visible s s₁ code src fun ρ => w.value none ρ e) (ha : s₁.Advances s₂)
    (hblank : x ≠ "_") (hnew : ¬ Avoided visible s₁ x) (hused : x ∈ s₂.used) :
    Sim w visible s s₂ (code ++ [.define [x] [e]]) src fun ρ => pure (w.read ρ x) where
  advances := h.advances.trans ha
  run := by
    intro δ ρ ρ' k k' halike hk
    rw [World.stmts_append, bind_assoc]
    refine h.run halike fun ρ₁ hgrows => ?_
    have hread : ∀ v, w.read ((x, v) :: ρ₁) x = v := by simp [World.read, Env.get?]
    have hk : ∀ v, k v = k' ((x, v) :: ρ₁) := by
      intro v
      rw [← hk _ (.declare v hgrows fun h' => hnew (h'.advance h.advances)), pure_bind, hread]
    simp only [World.stmts_singleton, World.stmt_define, World.declareAll, World.value,
      Env.declare_of_ne _ _ hblank, map_eq_pure_bind, bind_assoc, pure_bind, hk]
  stable := by
    intro ρ later _ hgrows
    show pure (w.read later x) = pure (w.read ρ x)
    rw [World.read, World.read, hgrows.get? (.inl hused)]

/-- Spilling keeps the value that was simulated. -/
theorem spill {src : Env V → Eval V V} {e : Expr} (hs : Ready visible s)
    (h : Sim w visible s s₁ code src fun ρ => w.value none ρ e) :
    Sim w visible s (Propagation.spill e s₁).supply (code ++ (Propagation.spill e s₁).code) src
      fun ρ => w.value none ρ (Propagation.spill e s₁).value := by
  unfold Propagation.spill
  split
  · simpa using h
  · have hnew := (hs.advance h.advances).not_avoided_fresh "Tmp" (by decide)
    exact h.define (s₁.advances_fresh "Tmp") (fresh_ne_blank _) hnew (s₁.mem_used_fresh _)

/-- The results of a call are kept in hidden variables, and an error is returned early. -/
theorem captured {src : Env V → Eval V (List V)} {call : Expr} {xs : List String}
    {error : String} {tgt : Env V → Eval V α} {f : List V → α}
    (isStruct : String → Bool) (tys : List Ty) (span : Span)
    (h : Sim w visible s s₁ code src fun ρ => w.values none ρ call) (ha : s₁.Advances s₂)
    (hblank : error ≠ "_") (hnew : ∀ x ∈ xs ++ [error], x = "_" ∨ ¬ Avoided visible s₁ x)
    (htgt : ∀ ρ results, tgt (w.declareAll ρ (xs ++ [error]) results) = pure (f results))
    (hstable : ∀ {ρ later : Env V}, ρ.Grows (Avoided visible s₂) later → tgt later = tgt ρ) :
    Sim w visible s s₂
      (code ++ [.define (xs ++ [error]) [call],
        .onlyIf (.isNotNil error) [.ret (tys.map (Ty.zero isStruct) ++ [.name error]) span]])
      (fun ρ => src ρ >>= fun results => do
        let _ ← w.attempted (some (tys.map (Ty.zero isStruct))) xs.length results
        pure (f results))
      tgt where
  advances := h.advances.trans ha
  run := by
    intro δ ρ ρ' k k' halike hk
    rw [World.stmts_append, bind_assoc, bind_assoc]
    refine h.run halike fun ρ₁ hgrows => ?_
    have hk : ∀ results, k (f results) = k' (w.declareAll ρ₁ (xs ++ [error]) results) := by
      intro results
      have hgrows₂ : ρ₁.Grows (Avoided visible s) (w.declareAll ρ₁ (xs ++ [error]) results) :=
        w.grows_declareAll _ _ _ fun x hx =>
          (hnew x hx).imp_right fun hx h' => hx (h'.advance h.advances)
      rw [← hk _ (hgrows.trans hgrows₂), htgt, pure_bind]
    have hglobal : "new" ∈ w.context.settings.globals := List.mem_cons_self
    have hxs : "new" ∉ xs ++ [error] := by
      intro hx
      rcases hnew _ hx with hblank | havoided
      · exact absurd hblank (by decide)
      · exact havoided (.inr (halike.known _ hglobal))
    have hfree := (halike.grows hgrows).clear.get? hglobal
    simp only [w.stmts_capture _ _ isStruct tys call span hblank hfree hxs, bind_assoc, pure_bind,
      hk]
  stable := fun _ => hstable

/-- The right operand of `&&` or `||` runs only if the left one does not decide. -/
theorem guard {s₃ : NameSupply} {srcL srcR : Env V → Eval V V} {left right test : Expr}
    {c : String} {op : BinaryOp} (hop : op.isShortCircuit)
    (hl : Sim w visible s s₁ code₁ srcL fun ρ => w.value none ρ left) (ha : s₁.Advances s₂)
    (hblank : c ≠ "_") (hnew : ¬ Avoided visible s₁ c) (hused : c ∈ s₂.used)
    (hr : Sim w visible s₂ s₃ code₂ srcR fun ρ => w.value none ρ right)
    (htest : ∀ ρ, ∃ v, w.value none ρ test = pure v ∧
      w.holds v = !w.decides op (w.read ρ c)) :
    Sim w visible s s₃
      (code₁ ++ [.define [c] [left], .onlyIf test (code₂ ++ [.store c right])])
      (fun ρ => srcL ρ >>= fun a =>
        if w.decides op a then pure [a] else srcR ρ >>= fun b => pure [w.combine op a b])
      (fun ρ => pure [w.read ρ c]) where
  advances := hl.advances.trans (ha.trans hr.advances)
  run := by
    intro δ ρ ρ' k k' halike hk
    rw [World.stmts_append, bind_assoc, bind_assoc]
    refine hl.run halike fun ρ₁ hgrows => ?_
    have hread : ∀ v, w.read ((c, v) :: ρ₁) c = v := by simp [World.read, Env.get?]
    have hgrows : ∀ v, ρ'.Grows (Avoided visible s) ((c, v) :: ρ₁) :=
      fun v => .declare v hgrows fun h' => hnew (h'.advance hl.advances)
    have hk : ∀ v, k [v] = k' ((c, v) :: ρ₁) := by
      intro v
      rw [← hk _ (hgrows v), pure_bind, hread]
    simp only [World.stmts, World.stmt_define, World.declareAll, Env.declare_of_ne _ _ hblank,
      World.value, map_eq_pure_bind, bind_assoc, pure_bind, bind_pure]
    congr 1
    funext results
    generalize w.first results = a
    obtain ⟨v, hv, hholds⟩ := htest ((c, a) :: ρ₁)
    rw [World.stmt_onlyIf, hv, pure_bind, hholds, hread]
    by_cases hdecides : w.decides op a
    · simp [hdecides, hk]
    · -- The block of the conditional declares what the right operand needs and drops it again.
      have hlook : Alike w visible ρ ((c, a) :: ρ₁) := halike.grows (hgrows a)
      simp only [hdecides, World.stmts_append, World.stmts_singleton, World.stmt_store, bind_assoc,
        pure_bind, Bool.not_false, if_true, Bool.false_eq_true, if_false]
      refine hr.run hlook fun ρ₂ hgrows₂ => ?_
      congr 1
      funext b
      have hset := hgrows₂.set (.inl hused) b
      rw [hset.restore (by simp [Env.set]), Env.set, if_pos rfl, ← hk, World.combine, if_pos hop]
  stable := by
    intro ρ later _ hgrows
    show pure [w.read later c] = pure [w.read ρ c]
    rw [World.read, World.read, hgrows.get? (.inl (hr.advances.used hused))]

end Sim

end Desugar.Propagation
