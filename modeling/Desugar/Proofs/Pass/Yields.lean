import Desugar.Proofs.Pass

/-!
# Faultless work

A pass goes on after a fault, and what it makes then is of no interest. `Pass.Ensures` is partial
correctness in this sense: if no fault is noted, the value and the emitted code satisfy a
condition. Noting a fault thus ensures anything, and a sequence ensures what its steps do, as none
of them has a fault when the sequence has none.

- `Pass.Ends`: the last emitted statement satisfies a condition.
- `Pass.Emits`: the value satisfies a condition, and every emitted statement satisfies another.
- `Noted.Yields`: the value satisfies a condition, for passes over a unit, which emit no code.
-/

namespace Desugar

variable {α β : Type}

namespace Noted

/-- If no fault is noted, the value satisfies the condition. -/
def Yields (x : Noted α) (Q : α → Prop) : Prop := x.notes.faults = [] → Q x.value

variable {x : Noted α} {f : α → Noted β} {Q R : α → Prop} {S : β → Prop}

theorem Yields.mono (h : x.Yields Q) (himp : ∀ a, Q a → R a) : x.Yields R :=
  fun hfaults => himp _ (h hfaults)

theorem Yields.and (hQ : x.Yields Q) (hR : x.Yields R) : x.Yields fun a => Q a ∧ R a :=
  fun hfaults => ⟨hQ hfaults, hR hfaults⟩

theorem Yields.pure {a : α} (h : Q a) : (Pure.pure a : Noted α).Yields Q := fun _ => h

/-- A step may rely on what the step before it yields. -/
theorem Yields.bind (hx : x.Yields Q) (hf : ∀ a, Q a → (f a).Yields S) : (x >>= f).Yields S := by
  intro hfaults
  rw [notes_bind, Notes.faults_append, List.append_eq_nil_iff] at hfaults
  exact hf _ (hx hfaults.1) hfaults.2

theorem yields_report (faults : List Fault) : (report faults).Yields fun _ => faults = [] := id

/-- After a fault nothing has to be shown. -/
theorem yields_report_bind (fault : Fault) {f : Unit → Noted β} :
    (report [fault] >>= f).Yields S :=
  (yields_report [fault]).bind fun _ h => absurd h (List.cons_ne_nil _ _)

theorem yields_record (event : Event) : (record event).Yields fun _ => True := fun _ => trivial

theorem yields_require (imports : List String) : (require imports).Yields fun _ => True :=
  fun _ => trivial

/-- The value of a list is taken element by element. -/
theorem value_mapM (f : α → Noted β) (as : List α) :
    (as.mapM f).value = as.map fun a => (f a).value := by
  induction as with
  | nil => rfl
  | cons a as ih => rw [List.mapM_cons, value_bind, value_bind, value_pure, ih, List.map_cons]

/-- The faults of a list are those of its elements, in order. -/
theorem faults_mapM (f : α → Noted β) (as : List α) :
    (as.mapM f).notes.faults = as.flatMap fun a => (f a).notes.faults := by
  induction as with
  | nil => rfl
  | cons a as ih =>
    rw [List.mapM_cons, notes_bind, notes_bind, notes_pure, Notes.append_empty, Notes.faults_append,
      ih, List.flatMap_cons]

/-- The events of a list are those of its elements, in order. -/
theorem events_mapM (f : α → Noted β) (as : List α) :
    (as.mapM f).notes.events = as.flatMap fun a => (f a).notes.events := by
  induction as with
  | nil => rfl
  | cons a as ih =>
    rw [List.mapM_cons, notes_bind, notes_bind, notes_pure, Notes.append_empty, Notes.events_append,
      ih, List.flatMap_cons]

/-- What holds of every value made of an element of a list holds of all of them. -/
theorem yields_mapM {f : α → Noted β} :
    ∀ {as : List α}, (∀ a ∈ as, (f a).Yields S) → (as.mapM f).Yields fun bs => ∀ b ∈ bs, S b
  | [], _ => by
    rw [List.mapM_nil]
    exact .pure (by simp)
  | a :: as, h => by
    rw [List.mapM_cons]
    refine (h a (by simp)).bind fun b hb => ?_
    refine (yields_mapM fun a' ha' => h a' (by simp [ha'])).bind fun bs hbs => ?_
    exact .pure (List.forall_mem_cons.mpr ⟨hb, hbs⟩)

/-- Each value is related to the element it was made of. -/
theorem yields_mapM_getElem? {f : α → Noted β} {T : α → β → Prop} (h : ∀ a, (f a).Yields (T a)) :
    ∀ as : List α, (as.mapM f).Yields fun bs =>
      ∀ (i : Nat) (a : α), as[i]? = some a → ∃ b, bs[i]? = some b ∧ T a b
  | [] => by
    rw [List.mapM_nil]
    exact .pure nofun
  | a :: as => by
    rw [List.mapM_cons]
    refine (h a).bind fun b hb => ?_
    refine (yields_mapM_getElem? h as).bind fun bs hbs => .pure ?_
    intro i a' hi
    cases i with
    | zero =>
      cases hi
      exact ⟨b, rfl, hb⟩
    | succ i => exact hbs i a' hi

/-- A step succeeds with its value if it notes no fault. -/
theorem outcome_eq_ok {a : α} : x.outcome = .ok a ↔ x.notes.faults = [] ∧ x.value = a := by
  unfold outcome
  split
  · rename_i hfaults
    simp [hfaults]
  · rename_i hfaults
    simp [show x.notes.faults ≠ [] from hfaults]

/-- A pass that succeeds gives what it yields. -/
theorem Yields.of_outcome (h : x.Yields Q) {a : α} (hout : x.outcome = .ok a) : Q a := by
  obtain ⟨hfaults, rfl⟩ := outcome_eq_ok.mp hout
  exact h hfaults

end Noted

namespace Pass

/-- If no fault is noted, the value and the emitted statements satisfy the condition. -/
def Ensures (p : Pass α) (Q : α → List Stmt → Prop) : Prop :=
  ∀ supply, (p supply).notes.faults = [] → Q (p supply).value (p supply).code

section Ensures

variable {p : Pass α} {f : α → Pass β} {Q R : α → List Stmt → Prop} {S : β → List Stmt → Prop}

theorem Ensures.mono (h : p.Ensures Q) (himp : ∀ a code, Q a code → R a code) : p.Ensures R :=
  fun supply hfaults => himp _ _ (h supply hfaults)

theorem ensures_pure {a : α} (h : Q a []) : (pure a : Pass α).Ensures Q := fun _ _ => h

/-- The code of two computations is emitted in order. -/
theorem Ensures.bind (hp : p.Ensures Q)
    (hf : ∀ a before, Q a before → (f a).Ensures fun b code => S b (before ++ code)) :
    (p >>= f).Ensures S := by
  intro supply hfaults
  rw [notes_bind, Notes.faults_append, List.append_eq_nil_iff] at hfaults
  exact hf _ _ (hp supply hfaults.1) _ hfaults.2

theorem Ensures.ite {c : Prop} [Decidable c] {q : Pass α} (hp : c → p.Ensures Q)
    (hq : ¬c → q.Ensures Q) : (if c then p else q).Ensures Q := by
  by_cases hc : c
  · rw [if_pos hc]
    exact hp hc
  · rw [if_neg hc]
    exact hq hc

/-- After a fault nothing has to be ensured. -/
theorem ensures_report {Q : Unit → List Stmt → Prop} (cause : Cause) (span : Span) :
    (report cause span).Ensures Q := by
  intro supply hfaults
  cases hfaults

theorem ensures_report_bind (cause : Cause) (span : Span) {f : Unit → Pass β} :
    (report cause span >>= f).Ensures S :=
  (ensures_report (Q := fun _ _ => False) cause span).bind fun _ _ h => h.elim

theorem ensures_emit (code : List Stmt) : (emit code).Ensures fun _ code' => code' = code :=
  fun _ _ => rfl

/-- Collected code is part of the value. -/
theorem Ensures.collect (h : p.Ensures Q) : p.collect.Ensures fun x code => code = [] ∧ Q x.1 x.2 :=
  fun supply hfaults => ⟨rfl, h supply hfaults⟩

/-- The pass emits nothing, and its value satisfies the condition. -/
abbrev Computes (p : Pass α) (Q : α → Prop) : Prop := p.Ensures fun a code => code = [] ∧ Q a

theorem Computes.pure {a : α} {Q : α → Prop} (h : Q a) : (Pure.pure a : Pass α).Computes Q :=
  ensures_pure ⟨rfl, h⟩

/-- A computation without code leaves the code to the next one. -/
theorem Computes.bind {Q : α → Prop} (hp : p.Computes Q) (hf : ∀ a, Q a → (f a).Ensures S) :
    (p >>= f).Ensures S := by
  refine Ensures.bind hp fun a before ⟨hbefore, ha⟩ => ?_
  subst hbefore
  exact hf a ha

theorem computes_fresh (role : String) : (fresh role).Computes fun _ => True :=
  fun _ _ => ⟨rfl, trivial⟩

/-- A pass that emits its code at the end. -/
theorem ensures_emit_pure {code : List Stmt} {a : α} (h : Q a code) :
    (emit code >>= fun _ => pure a).Ensures Q := by
  refine (ensures_emit code).bind fun _ before hbefore => ensures_pure ?_
  rw [hbefore, List.append_nil]
  exact h

end Ensures

/-- If no fault is noted, the last emitted statement satisfies the condition. -/
abbrev Ends (p : Pass α) (P : Stmt → Prop) : Prop :=
  p.Ensures fun _ code => ∃ last, code.getLast? = some last ∧ P last

section Ends

variable {p : Pass α} {f : α → Pass β} {P : Stmt → Prop}

theorem ends_emit {stmt : Stmt} (h : P stmt) : (emit [stmt]).Ends P :=
  fun _ _ => ⟨stmt, rfl, h⟩

/-- What is emitted before the last statement does not matter. -/
theorem Ends.after (hf : ∀ a, (f a).Ends P) : (p >>= f).Ends P := by
  have hp : p.Ensures fun _ _ => True := fun _ _ => trivial
  refine hp.bind fun a before _ => (hf a).mono fun _ code ⟨last, hlast, h⟩ => ⟨last, ?_, h⟩
  rw [List.getLast?_append, hlast]
  rfl

/-- The last statement stays the last one if nothing is emitted after it. -/
theorem Ends.before (hp : p.Ends P) (hf : ∀ a, (f a).Computes fun _ => True) :
    (p >>= f).Ends P := by
  refine Ensures.bind hp fun a before hbefore => (hf a).mono fun _ code hcode => ?_
  rw [hcode.1, List.append_nil]
  exact hbefore

end Ends

/-- If no fault is noted, the value satisfies the condition, and the emitted statements satisfy one
of their own. -/
def Emits (C : Stmt → Prop) (p : Pass α) (Q : α → Prop) : Prop :=
  p.Ensures fun a code => Q a ∧ ∀ stmt ∈ code, C stmt

section Emits

variable {C : Stmt → Prop} {p : Pass α} {f : α → Pass β} {Q R : α → Prop} {S : β → Prop}

theorem Emits.pure {a : α} (h : Q a) : (Pure.pure a : Pass α).Emits C Q :=
  ensures_pure ⟨h, List.forall_mem_nil C⟩

/-- Code is emitted in order, so that each statement of it keeps its property. -/
theorem Emits.bind (hp : p.Emits C Q) (hf : ∀ a, Q a → (f a).Emits C S) :
    (p >>= f).Emits C S := by
  refine Ensures.bind hp fun a before ⟨ha, hbefore⟩ => ?_
  refine Ensures.mono (hf a ha) fun b code ⟨hb, hcode⟩ => ?_
  exact ⟨hb, List.forall_mem_append.mpr ⟨hbefore, hcode⟩⟩

theorem Emits.ite {c : Prop} [Decidable c] {q : Pass α} (hp : c → p.Emits C Q)
    (hq : ¬c → q.Emits C Q) : (if c then p else q).Emits C Q :=
  Ensures.ite hp hq

theorem emits_fresh (role : String) : (fresh role).Emits C fun _ => True :=
  fun _ _ => ⟨trivial, List.forall_mem_nil C⟩

theorem emits_record (event : Event) : (record event).Emits C fun _ => True :=
  fun _ _ => ⟨trivial, List.forall_mem_nil C⟩

/-- Emitted code has the property if each of its statements has. -/
theorem emits_emit {code : List Stmt} (h : ∀ stmt ∈ code, C stmt) :
    (emit code).Emits C fun _ => True :=
  fun _ _ => ⟨trivial, h⟩

theorem emits_report {Q : Unit → Prop} (cause : Cause) (span : Span) :
    (report cause span).Emits C Q :=
  ensures_report cause span

theorem emits_report_bind (cause : Cause) (span : Span) {f : Unit → Pass β} :
    (report cause span >>= f).Emits C S :=
  ensures_report_bind cause span

/-- Collected code has the property as part of the value. -/
theorem Emits.collect (h : p.Emits C Q) :
    p.collect.Emits C fun x => Q x.1 ∧ ∀ stmt ∈ x.2, C stmt :=
  fun supply hfaults => ⟨h supply hfaults, List.forall_mem_nil C⟩

/-- A pass over a function yields the value of the pass over its body. -/
theorem Emits.runWith (h : p.Emits C Q) (supply : NameSupply) : (p.runWith supply).Yields Q :=
  fun hfaults => (h supply hfaults).1

end Emits

end Pass

end Desugar
