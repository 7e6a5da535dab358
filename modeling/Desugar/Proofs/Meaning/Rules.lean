import Desugar.Proofs.Meaning
import Desugar.Proofs.Tree.Occurrence

/-!
# Rules for running code

The evaluation of operands, places, started calls and thrown values by themselves, with the
equations that run a node through them, and what running a few short forms of code does.

- `World.exists_values_of_isPure`: an expression that `Expr.isPure` accepts acts on nothing.
- `World.stmts_append`: code is run piece by piece.
- `World.stmt_define_names` and its companions run the statements that lowering inserts.
-/

namespace Desugar

/-- Values can be stored at the expression. -/
def Expr.isPlace : Expr → Bool
  | .ident _ _ | .index _ _ _ | .selector _ _ _ | .unary .deref _ _ => true
  | _ => false

namespace World

variable {V : Type} (w : World V) (zeros? : Option (List Expr)) (ρ : Env V)

/-- Evaluates an expression where one value is needed. -/
def value (e : Expr) : Eval V V := w.first <$> w.values zeros? ρ e

/-- Evaluates sibling operands: all values of a single one, and one value each of several. -/
def operands (es : List Expr) : Eval V (List V) := w.spread <$> w.valuesList zeros? ρ es

/-- Evaluates operands to one value each. -/
def firsts (es : List Expr) : Eval V (List V) :=
  (·.map w.first) <$> w.valuesList zeros? ρ es

/-- Evaluates the operands of an assignable place. -/
def place : Expr → Eval V (Place V)
  | .ident name _ => pure (.name name)
  | .index base index _ => do
    let base ← w.value zeros? ρ base
    let index ← w.value zeros? ρ index
    pure (.index base index)
  | .selector base field _ => do
    let base ← w.value zeros? ρ base
    pure (.field base field)
  | .unary .deref operand _ => do
    let operand ← w.value zeros? ρ operand
    pure (.deref operand)
  | e => do
    let _ ← w.values zeros? ρ e
    pure .nowhere

/-- Evaluates the operands of a call, and starts it. -/
def started (action : V → List V → Action V) : Expr → Eval V (List V)
  | .call callee args _ => w.start action (w.value zeros? ρ callee) (w.operands zeros? ρ args)
  | e => w.values zeros? ρ e

/-- Evaluates what is returned. -/
def returns (es : List Expr) : Eval V (List V) :=
  w.returned zeros? es <$> w.valuesList zeros? ρ es

/-- Evaluates the operand of `throw` to an error. -/
def errors : Expr → Eval V (List V)
  | .lit (.string text) _ =>
    w.act (.call (w.pathValue w.context.settings.errorConstructor) [w.lit (.string text)])
  | .template segments _ => do
    let pieces ← w.pieces zeros? ρ segments
    w.act (.call (w.pathValue w.context.settings.errorFormatFunction)
      (w.formatText segments :: pieces.filterMap Piece.value?))
  | e => w.values zeros? ρ e

section Equations

variable (span : Span)

/-- A call that allocates nothing evaluates its callee and its arguments, and then calls. -/
theorem values_call {callee : Expr} {args : List Expr} (h : allocated? callee args = none) :
    w.values zeros? ρ (.call callee args span) =
      w.start .call (w.value zeros? ρ callee) (w.operands zeros? ρ args) := by
  rw [values, h]
  rfl

@[simp] theorem values_name (x : String) :
    w.values zeros? ρ (.name x) = pure [w.read ρ x] := rfl

/-- A `try` runs its call, and returns from the function if there is an error. -/
theorem values_attempt (operand : Expr) :
    w.values zeros? ρ (.attempt operand span) = (do
      let results ← w.values zeros? ρ operand
      w.attempted zeros? (w.valueCount operand) results) := rfl

/-- The call of a function of the unit has the values of its signature. -/
theorem valueCount_call {callee : Expr} {sig : Signature}
    (h : w.context.resolve? callee = some sig) (args : List Expr) :
    w.valueCount (.call callee args span) = sig.values.length := by
  simp [valueCount, h]

theorem firsts_cons (e : Expr) (rest : List Expr) :
    w.firsts zeros? ρ (e :: rest) = (do
      let v ← w.value zeros? ρ e
      let vs ← w.firsts zeros? ρ rest
      pure (v :: vs)) := by
  simp only [firsts, value, valuesList, map_eq_pure_bind, bind_assoc, pure_bind, List.map_cons]

/-- A single operand gives all its values. -/
theorem operands_singleton (e : Expr) : w.operands zeros? ρ [e] = w.values zeros? ρ e := by
  simp only [operands, valuesList, map_eq_pure_bind, bind_assoc, pure_bind, spread, bind_pure]

/-- Several operands give one value each. -/
theorem operands_eq_firsts : ∀ {es : List Expr}, es.length ≠ 1 →
    w.operands zeros? ρ es = w.firsts zeros? ρ es
  | [], _ => rfl
  | [_], h => absurd rfl h
  | e₁ :: e₂ :: rest, _ => by
    simp only [operands, firsts, valuesList, map_eq_pure_bind, bind_assoc, pure_bind, spread]

/-- Operands are evaluated from left to right. -/
theorem firsts_append (es rest : List Expr) :
    w.firsts zeros? ρ (es ++ rest) = (do
      let vs ← w.firsts zeros? ρ es
      let us ← w.firsts zeros? ρ rest
      pure (vs ++ us)) := by
  induction es with
  | nil => simp [firsts, valuesList]
  | cons e es ih => simp [firsts_cons, ih]

/-- Places are evaluated from left to right. -/
theorem places_cons (e : Expr) (rest : List Expr) :
    w.places zeros? ρ (e :: rest) = (do
      let place ← w.place zeros? ρ e
      let places ← w.places zeros? ρ rest
      pure (place :: places)) := by
  cases e with
  | unary op => cases op <;> simp only [places, place, value, bind_assoc, pure_bind]
  | _ => simp only [places, place, value, bind_assoc, pure_bind]

/-- What is no place is evaluated, and a value that is stored there is lost. -/
theorem place_of_not_isPlace {e : Expr} (h : e.isPlace = false) :
    w.place zeros? ρ e = (fun _ => .nowhere) <$> w.values zeros? ρ e := by
  cases e with
  | unary op =>
    cases op with
    | deref => cases h
    | _ => simp [place]
  | ident | index | selector => cases h
  | _ => simp [place]

/-- An assignment evaluates its places before its values. -/
theorem stmt_assign (targets : List Expr) (op : AssignOp) (es : List Expr) :
    w.stmt zeros? ρ (.assign targets op es span) = (do
      let places ← w.places zeros? ρ targets
      let results ← w.operands zeros? ρ es
      w.storeAll op ρ places results) := rfl

theorem stmt_ret (es : List Expr) :
    w.stmt zeros? ρ (.ret es span) = (do
      let results ← w.returns zeros? ρ es
      .leave (.returned results)) := by
  simp only [stmt, returns, bind_map_left]

/-- A function that returns a result adds a missing error, unless a call that it returns has one
itself. -/
theorem returns_some (zeros es : List Expr) :
    w.returns (some zeros) ρ es =
      if isSoleAttempt es then (· ++ [w.nil]) <$> w.operands (some zeros) ρ es
      else if w.passesOn zeros.length es then w.operands (some zeros) ρ es
      else if es.length = zeros.length then (· ++ [w.nil]) <$> w.firsts (some zeros) ρ es
      else w.operands (some zeros) ρ es := by
  have hreturned : w.returned (some zeros) es = fun lists =>
      if isSoleAttempt es then w.spread lists ++ [w.nil]
      else if w.passesOn zeros.length es then w.spread lists
      else if es.length = zeros.length then lists.map w.first ++ [w.nil]
      else w.spread lists := rfl
  simp only [returns, hreturned, operands, firsts]
  by_cases hsole : isSoleAttempt es
  · simp [hsole]
  · by_cases hpasses : w.passesOn zeros.length es
    · simp [hsole, hpasses]
    · by_cases hlength : es.length = zeros.length <;> simp [hsole, hpasses, hlength]

/-- A go-binding starts its call and declares the names with the answer. -/
theorem stmt_bind (names : List Ident) (call : Expr) :
    w.stmt zeros? ρ (.bind names call span) = (do
      let results ← w.started zeros? ρ .bind call
      pure (w.declareAll ρ (names.map (·.name)) results)) := by
  cases call <;> rfl

theorem stmt_go (call : Expr) :
    w.stmt zeros? ρ (.go call span) = (do
      let _ ← w.started zeros? ρ (.launch .go) call
      pure ρ) := by
  cases call <;> rfl

theorem stmt_defer (call : Expr) :
    w.stmt zeros? ρ (.defer call span) = (do
      let _ ← w.started zeros? ρ (.launch .defer) call
      pure ρ) := by
  cases call <;> rfl

/-- A `throw` leaves the function with the zero values and an error. -/
theorem stmt_throw (e : Expr) :
    w.stmt zeros? ρ (.throw e span) = (do
      let errors ← w.errors zeros? ρ e
      .leave (.returned (w.thrown zeros? errors))) := by
  cases e with
  | lit value => cases value <;> simp only [stmt, errors]
  | _ => simp only [stmt, errors, bind_assoc]

end Equations

/-- Statements run one after another. -/
theorem stmts_append (code rest : List Stmt) :
    w.stmts zeros? ρ (code ++ rest) = (do
      let later ← w.stmts zeros? ρ code
      w.stmts zeros? later rest) := by
  induction code generalizing ρ with
  | nil => rfl
  | cons s code ih => simp [stmts, ih]

@[simp] theorem stmts_nil : w.stmts zeros? ρ [] = pure ρ := rfl

@[simp] theorem stmts_singleton (s : Stmt) : w.stmts zeros? ρ [s] = w.stmt zeros? ρ s := by
  simp [stmts]

/-! ### Expressions that run nothing -/

mutual
/-- An expression without calls and receives only computes. -/
theorem exists_values_of_isPure : ∀ (e : Expr), e.isPure → ∃ vs, w.values none ρ e = pure vs
  | .ident _ _, _ | .lit _ _, _ | .ofType _ _, _ | .func _ _ _ _, _ => ⟨_, rfl⟩
  | .call _ _ _, h => by simp [Expr.isPure_eq, Expr.isEffect] at h
  | .template segments _, h => by
    rw [Expr.isPure_eq] at h
    obtain ⟨pieces, hpieces⟩ := exists_pieces_of_isPure segments
      (by simpa [Expr.parts, Expr.isEffect] using h)
    exact ⟨[w.template pieces], by simp [values, hpieces]⟩
  | .attempt operand _, h => by
    rw [Expr.isPure_eq] at h
    obtain ⟨vs, hvs⟩ := exists_values_of_isPure operand
      (by simpa [Expr.parts, Expr.isEffect] using h)
    exact ⟨w.pad (w.valueCount operand) vs, by simp [values, hvs, attempted]⟩
  | .binary op left right _, h => by
    rw [Expr.isPure_eq] at h
    obtain ⟨hl, hr⟩ : left.isPure ∧ right.isPure := by simpa [Expr.parts, Expr.isEffect] using h
    obtain ⟨vs, hvs⟩ := exists_values_of_isPure left hl
    obtain ⟨us, hus⟩ := exists_values_of_isPure right hr
    refine ⟨if w.decides op (w.first vs) then [w.first vs]
      else [w.combine op (w.first vs) (w.first us)], ?_⟩
    simp only [values, hvs, hus, map_pure, pure_bind]
    split <;> rfl
  | .unary op operand _, h => by
    rw [Expr.isPure_eq] at h
    obtain ⟨hop, ho⟩ : op ≠ .receive ∧ operand.isPure := by
      cases op <;> simp_all [Expr.parts, Expr.isEffect]
    obtain ⟨vs, hvs⟩ := exists_values_of_isPure operand ho
    exact ⟨[w.unary op (w.first vs)], by simp [values, hvs, hop]⟩
  | .selector base field _, h => by
    rw [Expr.isPure_eq] at h
    obtain ⟨vs, hvs⟩ := exists_values_of_isPure base (by simpa [Expr.parts, Expr.isEffect] using h)
    exact ⟨[w.field (w.first vs) field], by simp [values, hvs]⟩
  | .index base index _, h => by
    rw [Expr.isPure_eq] at h
    obtain ⟨hb, hi⟩ : base.isPure ∧ index.isPure := by simpa [Expr.parts, Expr.isEffect] using h
    obtain ⟨vs, hvs⟩ := exists_values_of_isPure base hb
    obtain ⟨us, hus⟩ := exists_values_of_isPure index hi
    exact ⟨[w.index (w.first vs) (w.first us)], by simp [values, hvs, hus]⟩
  | .composite ty elements _, h => by
    rw [Expr.isPure_eq] at h
    obtain ⟨es, hes⟩ := exists_elements_of_isPure elements
      (by simpa [Expr.parts, Expr.isEffect] using h)
    exact ⟨[w.composite ty es], by simp [values, hes]⟩

theorem exists_elements_of_isPure : ∀ (elements : List Element),
    (elements.flatMap Element.parts).all Expr.isPure →
      ∃ es, w.elements none ρ elements = pure es
  | [], _ => ⟨[], rfl⟩
  | ⟨none, value⟩ :: rest, h => by
    simp only [List.flatMap_cons, Element.parts, List.all_append, Bool.and_eq_true] at h
    obtain ⟨vs, hvs⟩ := exists_values_of_isPure value (by simpa using h.1)
    obtain ⟨es, hes⟩ := exists_elements_of_isPure rest h.2
    exact ⟨(none, w.first vs) :: es, by simp [elements, hvs, hes]⟩
  | ⟨some key, value⟩ :: rest, h => by
    simp only [List.flatMap_cons, Element.parts, List.all_append, Bool.and_eq_true] at h
    obtain ⟨ks, hks⟩ := exists_values_of_isPure key (by simpa using h.1.1)
    obtain ⟨vs, hvs⟩ := exists_values_of_isPure value (by simpa using h.1.2)
    obtain ⟨es, hes⟩ := exists_elements_of_isPure rest h.2
    exact ⟨(some (w.first ks), w.first vs) :: es, by simp [elements, hks, hvs, hes]⟩

theorem exists_pieces_of_isPure : ∀ (segments : List Segment),
    (segments.filterMap Segment.embedded?).all Expr.isPure →
      ∃ pieces, w.pieces none ρ segments = pure pieces
  | [], _ => ⟨[], rfl⟩
  | .text text :: rest, h => by
    obtain ⟨pieces, hpieces⟩ := exists_pieces_of_isPure rest (by simpa using h)
    exact ⟨.text text :: pieces, by simp [World.pieces, hpieces]⟩
  | .embed value verb _ :: rest, h => by
    obtain ⟨hv, hrest⟩ : value.isPure ∧ (rest.filterMap Segment.embedded?).all Expr.isPure := by
      simpa using h
    obtain ⟨vs, hvs⟩ := exists_values_of_isPure value hv
    obtain ⟨pieces, hpieces⟩ := exists_pieces_of_isPure rest hrest
    exact ⟨.value (w.first vs) verb :: pieces, by simp [World.pieces, hvs, hpieces]⟩
end

/-- A pure expression has a value and does nothing else. -/
theorem exists_value_of_isPure {e : Expr} (h : e.isPure) : ∃ v, w.value none ρ e = pure v := by
  obtain ⟨vs, hvs⟩ := w.exists_values_of_isPure ρ e h
  exact ⟨w.first vs, by simp [value, hvs]⟩

/-- A pure expression has a place and does nothing else. -/
theorem exists_place_of_isPure {e : Expr} (h : e.isPure) : ∃ p, w.place none ρ e = pure p := by
  have hplain : ∃ vs, w.values none ρ e = pure vs := w.exists_values_of_isPure ρ e h
  rw [Expr.isPure_eq] at h
  cases e with
  | ident name => exact ⟨.name name, rfl⟩
  | index base index =>
    obtain ⟨hb, hi⟩ : base.isPure ∧ index.isPure := by simpa [Expr.parts, Expr.isEffect] using h
    obtain ⟨v, hv⟩ := w.exists_value_of_isPure ρ hb
    obtain ⟨u, hu⟩ := w.exists_value_of_isPure ρ hi
    exact ⟨.index v u, by simp [place, hv, hu]⟩
  | selector base field =>
    obtain ⟨v, hv⟩ := w.exists_value_of_isPure ρ (e := base)
      (by simpa [Expr.parts, Expr.isEffect] using h)
    exact ⟨.field v field, by simp [place, hv]⟩
  | unary op operand =>
    obtain ⟨vs, hvs⟩ := hplain
    by_cases hop : op = .deref
    · subst hop
      obtain ⟨v, hv⟩ := w.exists_value_of_isPure ρ (e := operand)
        (by simpa [Expr.parts, Expr.isEffect] using h)
      exact ⟨.deref v, by simp [place, hv]⟩
    · exact ⟨.nowhere, by cases op <;> simp_all [place]⟩
  | _ =>
    obtain ⟨vs, hvs⟩ := hplain
    exact ⟨.nowhere, by simp [place, hvs]⟩

/-! ### Inserted code -/

section Inserted

section Written

variable {α : Type}

/-- Only a written name evaluates to a variable. -/
theorem place_congr {f g : Place V → Eval V α} {e : Expr}
    (h : ∀ p, (∀ x, p = .name x → ∃ span, e = .ident x span) → f p = g p) :
    w.place zeros? ρ e >>= f = w.place zeros? ρ e >>= g := by
  have hother : ∀ p, (∀ x, p ≠ .name x) → f p = g p := fun p hp => h p fun x hx => absurd hx (hp x)
  have hindex : ∀ base index, f (.index base index) = g (.index base index) :=
    fun _ _ => hother _ (by simp)
  have hfield : ∀ base field, f (.field base field) = g (.field base field) :=
    fun _ _ => hother _ (by simp)
  have hderef : ∀ pointer, f (.deref pointer) = g (.deref pointer) := fun _ => hother _ (by simp)
  have hnowhere : f .nowhere = g .nowhere := hother _ (by simp)
  cases e with
  | ident x span =>
    rw [place, pure_bind, pure_bind, h]
    rintro y ⟨⟩
    exact ⟨span, rfl⟩
  | unary op => cases op <;> simp only [place, bind_assoc, pure_bind, hderef, hnowhere]
  | _ => simp only [place, bind_assoc, pure_bind, hindex, hfield, hnowhere]

/-- Of the evaluated places, only the written names are variables. -/
theorem places_congr {f g : List (Place V) → Eval V α} {es : List Expr}
    (h : ∀ ps, (∀ x, .name x ∈ ps → ∃ span, .ident x span ∈ es) → f ps = g ps) :
    w.places zeros? ρ es >>= f = w.places zeros? ρ es >>= g := by
  induction es generalizing f g with
  | nil => exact h [] nofun
  | cons e es ih =>
    simp only [places_cons, bind_assoc, pure_bind]
    refine w.place_congr _ _ fun p hp => ih fun ps hps => h _ fun x hx => ?_
    rcases List.mem_cons.mp hx with heq | hx
    · obtain ⟨span, rfl⟩ := hp x heq.symm
      exact ⟨span, List.mem_cons_self⟩
    · obtain ⟨span, hmem⟩ := hps x hx
      exact ⟨span, List.mem_cons_of_mem _ hmem⟩

end Written

/-- Names are places that need no evaluation. -/
theorem places_names (names : List String) :
    w.places zeros? ρ (names.map Expr.name) = pure (names.map Place.name) := by
  induction names with
  | nil => rfl
  | cons x names ih => simp [places_cons, ih, place, Expr.name]

/-- To store values at names by a definition is to declare the names. -/
theorem storeAll_define (names : List String) (vs : List V) :
    w.storeAll .define ρ (names.map Place.name) vs = pure (w.declareAll ρ names vs) := by
  induction names generalizing ρ vs with
  | nil => rfl
  | cons x names ih => simp [storeAll, store, declareAll, ih]

/-- A definition of one expression declares names with its values. -/
theorem stmt_define (names : List String) (e : Expr) :
    w.stmt zeros? ρ (.define names [e]) = (do
      let vs ← w.values zeros? ρ e
      pure (w.declareAll ρ names vs)) := by
  simp only [Stmt.define, stmt_assign, places_names, operands_singleton, storeAll_define,
    pure_bind]

/-- An assignment to a name changes its innermost variable. -/
theorem stmt_store (x : String) (e : Expr) :
    w.stmt zeros? ρ (.store x e) = (do
      let v ← w.value zeros? ρ e
      pure (ρ.set x v)) := by
  have hplaces : w.places zeros? ρ [Expr.name x] = pure [.name x] := w.places_names zeros? ρ [x]
  simp only [Stmt.store, stmt_assign, hplaces, operands_singleton, value, map_eq_pure_bind,
    pure_bind, bind_assoc, storeAll, store]

/-- A conditional without `else` runs its body in a block of its own. -/
theorem stmt_onlyIf (condition : Expr) (body : List Stmt) :
    w.stmt zeros? ρ (.onlyIf condition body) = (do
      let v ← w.value zeros? ρ condition
      if w.holds v then do
        let later ← w.stmts zeros? ρ body
        pure (ρ.restore later)
      else pure ρ) := rfl

/-- The check of an error compares a variable with nil. -/
theorem value_isNotNil (x : String) :
    w.value zeros? ρ (.isNotNil x) = pure (w.binary .ne (w.read ρ x) w.nil) := rfl

variable {ρ} in
/-- A zero value has no variables, if none is called `new`. -/
theorem values_zero (hnew : ρ.get? "new" = none) (isStruct : String → Bool) (ty : Ty) :
    w.values zeros? ρ (ty.zero isStruct) = pure [w.constant (ty.zero isStruct)] := by
  have hallocate : ∀ ty, w.values zeros? ρ ((Expr.name "new").apply [.ofType ty .nowhere]) =
      pure [w.allocate ty] := by
    intro ty
    simp only [Expr.apply, values, allocated?, Expr.name, hnew]
  cases ty with
  | named name =>
    unfold Ty.zero
    split
    · rfl
    · rfl
    · split
      · rfl
      · split
        · rfl
        · split
          · rfl
          · rw [values, hallocate]
            rfl
    · rfl
  | _ => rfl

variable {ρ} in
/-- Zero values are constants as long as `new` is not hidden. -/
theorem firsts_zeros (hnew : ρ.get? "new" = none) (isStruct : String → Bool) (tys : List Ty) :
    w.firsts zeros? ρ (tys.map (Ty.zero isStruct)) =
      pure ((tys.map (Ty.zero isStruct)).map w.constant) := by
  induction tys with
  | nil => rfl
  | cons ty tys ih =>
    have hvalue : w.value zeros? ρ (ty.zero isStruct) = pure (w.constant (ty.zero isStruct)) := by
      rw [value, w.values_zero _ hnew, map_pure]
      rfl
    simp [firsts_cons, hvalue, ih]

variable {ρ} in
/-- A return of zero values and an error returns what `throw` does. -/
theorem stmt_ret_zeros (hnew : ρ.get? "new" = none) (isStruct : String → Bool) (tys : List Ty)
    (error : Expr) (span : Span) :
    w.stmt none ρ (.ret (tys.map (Ty.zero isStruct) ++ [error]) span) = (do
      let errors ← w.values none ρ error
      .leave (.returned (w.thrown (some (tys.map (Ty.zero isStruct))) errors))) := by
  rw [stmt_ret, show w.returns none ρ = w.operands none ρ from rfl]
  cases tys with
  | nil => rw [List.map_nil, List.nil_append, operands_singleton]; rfl
  | cons ty tys =>
    rw [operands_eq_firsts _ _ _ (by simp), firsts_append, w.firsts_zeros _ hnew, pure_bind,
      firsts_cons]
    simp only [value, map_eq_pure_bind, bind_assoc, pure_bind]
    rfl

/-- Names are read as they stand in the environment. -/
theorem firsts_names (xs : List String) :
    w.firsts zeros? ρ (xs.map Expr.name) = pure (xs.map (w.read ρ)) := by
  induction xs with
  | nil => rfl
  | cons x xs ih => simp [firsts_cons, ih, value, first]

/-- Names give one value each, one name included. -/
theorem operands_names (xs : List String) :
    w.operands zeros? ρ (xs.map Expr.name) = pure (xs.map (w.read ρ)) := by
  match xs with
  | [x] => rw [List.map_singleton, operands_singleton]; rfl
  | [] | _ :: _ :: _ => rw [operands_eq_firsts _ _ _ (by simp), firsts_names]

/-- A missing error is nil. -/
theorem operands_append_nil (es : List Expr) :
    w.operands zeros? ρ (es ++ [.nil]) = (· ++ [w.nil]) <$> w.firsts zeros? ρ es := by
  cases es with
  | nil => rw [List.nil_append, operands_singleton]; rfl
  | cons e es =>
    have hnil : w.firsts zeros? ρ [.nil] = pure [w.nil] := rfl
    rw [operands_eq_firsts _ _ _ (by simp), firsts_append]
    simp only [hnil, pure_bind, map_eq_pure_bind]

/-- A reference to a function path is looked up by the name that the path starts with. -/
theorem values_reference (path : String) :
    w.values zeros? ρ (Path.reference path) = pure [w.follow path (w.read ρ (Path.head path))] := by
  have hfold : ∀ (parts : List (List Char)) (base : Expr) (v : V),
      w.values zeros? ρ base = pure [v] →
      w.values zeros? ρ (parts.foldl (fun base part => base.member (String.ofList part)) base) =
        pure [parts.foldl (fun v part => w.field v (String.ofList part)) v] := by
    intro parts
    induction parts with
    | nil => intro base v h; exact h
    | cons part parts ih =>
      intro base v h
      refine ih _ _ ?_
      simp [Expr.member, values, h, first]
  unfold Path.reference follow Path.head
  cases Path.parts '.' path.toList with
  | nil => rfl
  | cons head rest => exact hfold rest (.name (String.ofList head)) _ rfl

/-- A call of a function path, the first argument of which is a literal. -/
theorem values_call_reference (path : String) (literal : Literal) (args : List Expr)
    (span span' : Span) :
    w.values zeros? ρ (.call (Path.reference path) (.lit literal span :: args) span') = (do
      let vs ← w.firsts zeros? ρ args
      w.act (.call (w.follow path (w.read ρ (Path.head path))) (w.lit literal :: vs))) := by
  have halloc : allocated? (Path.reference path) (.lit literal span :: args) = none := by
    unfold allocated?
    split
    · rename_i heq
      cases heq
    · rfl
  have hargs : w.operands zeros? ρ (.lit literal span :: args) =
      (w.lit literal :: ·) <$> w.firsts zeros? ρ args := by
    cases args with
    | nil => rw [operands_singleton]; rfl
    | cons e args =>
      rw [operands_eq_firsts _ _ _ (by simp), firsts_cons]
      simp [value, values, first]
  rw [values_call _ _ _ _ halloc, start, hargs]
  simp [value, values_reference, first]

variable {ρ} in
/-- A reference finds the function at a path, if no variable hides it. -/
theorem follow_read {path : String} (h : ρ.get? (Path.head path) = none) :
    w.follow path (w.read ρ (Path.head path)) = w.pathValue path := by
  rw [read, h, Option.getD_none, pathValue]

end Inserted

/-! ### Captured results -/

section Capture

variable (xs : List String) (vs : List V)

/-- Declarations of other names do not hide a name. -/
theorem get?_declareAll_of_not_mem {x : String} (hx : x ∉ xs) :
    (w.declareAll ρ xs vs).get? x = ρ.get? x := by
  induction xs generalizing ρ vs with
  | nil => rfl
  | cons y xs ih =>
    have hne : y ≠ x := fun h => hx (h ▸ List.mem_cons_self)
    rw [declareAll, ih _ _ (fun h => hx (List.mem_cons_of_mem _ h)), Env.declare]
    split
    · rfl
    · simp [Env.get?, hne]

/-- Declarations of names that are not avoided let the environment grow. -/
theorem grows_declareAll {avoid : String → Prop} (h : ∀ x ∈ xs, x = "_" ∨ ¬ avoid x) :
    Env.Grows avoid ρ (w.declareAll ρ xs vs) := by
  induction xs generalizing ρ vs with
  | nil => exact .refl
  | cons x xs ih =>
    refine .trans ?_ (ih (ρ.declare x (w.first vs)) vs.tail
      fun y hy => h y (List.mem_cons_of_mem _ hy))
    by_cases hx : x = "_"
    · simpa [Env.declare, hx] using Env.Grows.refl
    · rw [Env.declare_of_ne _ _ hx]
      exact .declare _ .refl ((h x List.mem_cons_self).resolve_left hx)

/-- The last of several captured results. -/
theorem read_declareAll_last {x : String} (hx : x ≠ "_") :
    w.read (w.declareAll ρ (xs ++ [x]) vs) x = vs.getD xs.length w.nil := by
  induction xs generalizing ρ vs with
  | nil => cases vs <;> simp [declareAll, Env.declare, hx, read, Env.get?, first]
  | cons y xs ih => cases vs <;> simp [declareAll, ih]

/-- Padding takes the first value, or nil, and goes on. -/
theorem pad_succ (count : Nat) :
    w.pad (count + 1) vs = w.first vs :: w.pad count vs.tail := by
  cases vs <;> simp [pad, List.range_succ_eq_map, first, Function.comp_def]

/-- Captured results are read back. -/
theorem read_declareAll {rest : List String} (hblank : "_" ∉ xs) (hnodup : (xs ++ rest).Nodup) :
    xs.map (w.read (w.declareAll ρ (xs ++ rest) vs)) = w.pad xs.length vs := by
  induction xs generalizing ρ vs with
  | nil => rfl
  | cons x xs ih =>
    rw [List.cons_append] at hnodup
    obtain ⟨hx, hnodup⟩ := List.nodup_cons.mp hnodup
    have hne : x ≠ "_" := fun h => hblank (h ▸ List.mem_cons_self)
    have hread : w.read (w.declareAll (ρ.declare x (w.first vs)) (xs ++ rest) vs.tail) x =
        w.first vs := by
      rw [read, get?_declareAll_of_not_mem _ _ _ _ hx]
      simp [Env.declare, hne, Env.get?]
    rw [List.length_cons, pad_succ, List.map_cons, List.cons_append, declareAll, hread,
      ih _ _ (fun h => hblank (List.mem_cons_of_mem _ h)) hnodup]

/-- A function that returns a result throws its zero values and the error. -/
theorem thrown_singleton (zeros : List Expr) (error : V) :
    w.thrown (some zeros) [error] = zeros.map w.constant ++ [error] := by
  cases zeros <;> rfl

/-- Capturing the results of a call and returning early on an error does what `try` does. -/
theorem stmts_capture (isStruct : String → Bool) (tys : List Ty) (call : Expr) {error : String}
    (span : Span) (herror : error ≠ "_") (hnew : ρ.get? "new" = none)
    (hxs : "new" ∉ xs ++ [error]) :
    w.stmts none ρ
        [.define (xs ++ [error]) [call],
          .onlyIf (.isNotNil error) [.ret (tys.map (Ty.zero isStruct) ++ [.name error]) span]] =
      (do
        let results ← w.values none ρ call
        let _ ← w.attempted (some (tys.map (Ty.zero isStruct))) xs.length results
        pure (w.declareAll ρ (xs ++ [error]) results)) := by
  have hnew : ∀ results, (w.declareAll ρ (xs ++ [error]) results).get? "new" = none := by
    intro results
    rw [get?_declareAll_of_not_mem _ _ _ _ hxs, hnew]
  simp only [stmts, stmt_define, stmt_onlyIf, bind_assoc, pure_bind, bind_pure, value_isNotNil,
    w.stmt_ret_zeros (hnew _), values_name, read_declareAll_last _ _ _ _ herror, attempted,
    thrown_singleton]
  congr 1
  funext results
  split
  · rfl
  · rfl

end Capture

end World

end Desugar
