import Desugar.Proofs.Pass.Draws
import Desugar.Proofs.Tree.Survey

/-!
# What a pass does not lose

A pass moves code to other places and replaces some of it, and takes notes of what it does. What a
survey gathers in the source is not lost if it is gathered afterwards in the value of the pass, in
the code that it emits or in its notes. The same is asked of the names that the pass makes up.

- `Step.gathered`: what is gathered in the outcome of a pass.
- `Pass.Covers`: without a fault, the source and the names that are taken are gathered again.
- `Noted.Covers`: the same for passes over a unit, which emit no code and take no names.
-/

namespace Desugar

variable {L : Type} [SemilatticeSup L] [OrderBot L] {survey : Survey L}

/-- What is gathered in the value, in the code and in the notes of a step. -/
def Step.gathered {α : Type} (survey : Survey L) (header : Bool) (target : α → L) (step : Step α) :
    L :=
  target step.value ⊔ survey.stmts header step.code ⊔ survey.noted step.notes

/-- Without a fault, the computation takes names from the supply, and these and the source are
gathered in what comes of it. -/
def Pass.Covers {α : Type} (survey : Survey L) (header : Bool) (source : L) (p : Pass α)
    (target : α → L) : Prop :=
  ∀ supply, (p supply).notes.faults = [] → ∃ xs, supply.Draws xs (p supply).supply ∧
    survey.names xs ⊔ source ≤ (p supply).gathered survey header target

namespace Step

variable {α : Type} {header : Bool} {target : α → L} {step : Step α} {source : L}

/-- What the value counts for is gathered. -/
theorem le_gathered_value (h : source ≤ target step.value) :
    source ≤ step.gathered survey header target :=
  le_sup_of_le_left (le_sup_of_le_left h)

/-- What the code counts for is gathered. -/
theorem le_gathered_code (h : source ≤ survey.stmts header step.code) :
    source ≤ step.gathered survey header target :=
  le_sup_of_le_left (le_sup_of_le_right h)

/-- What the notes count for is gathered. -/
theorem le_gathered_notes (h : source ≤ survey.noted step.notes) :
    source ≤ step.gathered survey header target :=
  le_sup_of_le_right h

end Step

namespace Pass.Covers

variable {α β : Type} {header : Bool} {source source' rest : L} {p q : Pass α}
  {f : α → Pass β} {target : α → L} {final : β → L}

/-- A computation that takes no name only has to gather its source. -/
theorem quiet (hp : p.DrawsNothing)
    (h : ∀ supply, source ≤ (p supply).gathered survey header target) :
    p.Covers survey header source target := by
  intro supply _
  refine ⟨[], ?_, ?_⟩
  · rw [hp supply]
    exact .nothing supply
  · rw [Survey.names_nil, bot_sup_eq]
    exact h supply

theorem pure {a : α} (h : source ≤ target a) :
    (Pure.pure a : Pass α).Covers survey header source target :=
  quiet (fun _ => rfl) fun _ => Step.le_gathered_value h

/-- A source that counts for less is gathered, too. -/
theorem mono (h : p.Covers survey header source target) (hle : source' ≤ source) :
    p.Covers survey header source' target := by
  intro supply hfaults
  obtain ⟨xs, hxs, hcovers⟩ := h supply hfaults
  exact ⟨xs, hxs, (sup_le_sup_left hle _).trans hcovers⟩

/-- A part of the source is given to a pass. What becomes of it and the rest are given to what
follows. -/
theorem bind (hp : p.Covers survey header source target)
    (hf : ∀ a, (f a).Covers survey header (target a ⊔ rest) final) :
    (p >>= f).Covers survey header (source ⊔ rest) final := by
  intro supply hfaults
  rw [notes_bind, Notes.faults_append, List.append_eq_nil_iff] at hfaults
  obtain ⟨xs, hxs, hbefore⟩ := hp supply hfaults.1
  obtain ⟨ys, hys, hafter⟩ := hf _ _ hfaults.2
  refine ⟨xs ++ ys, hxs.append hys, ?_⟩
  set before := p supply
  set after := f before.value before.supply
  have hwhole : ((p >>= f) supply).gathered survey header final =
      final after.value ⊔ (survey.stmts header before.code ⊔ survey.stmts header after.code) ⊔
        survey.noted (before.notes ++ after.notes) := by
    rw [← Survey.stmts_append]
    rfl
  rw [hwhole, Survey.names_append]
  set whole := final after.value ⊔
    (survey.stmts header before.code ⊔ survey.stmts header after.code) ⊔
      survey.noted (before.notes ++ after.notes)
  -- What becomes of the first part is covered by what follows, and its code and notes are kept.
  have hkept : after.gathered survey header final ≤ whole :=
    sup_le_sup (sup_le_sup_left le_sup_right _) (survey.noted_right _ _)
  obtain ⟨hys, htarget, hrest⟩ : survey.names ys ≤ whole ∧ target before.value ≤ whole ∧
      rest ≤ whole := by
    simpa only [sup_le_iff] using hafter.trans hkept
  have hcode : survey.stmts header before.code ≤ whole :=
    le_sup_of_le_left (le_sup_of_le_right le_sup_left)
  have hnotes : survey.noted before.notes ≤ whole :=
    le_sup_of_le_right (survey.noted_left _ _)
  have hfirst : survey.names xs ⊔ source ≤ whole :=
    hbefore.trans (sup_le (sup_le htarget hcode) hnotes)
  exact sup_le (sup_le (le_sup_left.trans hfirst) hys) (sup_le (le_sup_right.trans hfirst) hrest)

/-- The whole source is given to a pass. -/
theorem next (hp : p.Covers survey header source target)
    (hf : ∀ a, (f a).Covers survey header (target a) final) :
    (p >>= f).Covers survey header source final := by
  have hbind : (p >>= f).Covers survey header (source ⊔ ⊥) final :=
    bind hp fun a => (hf a).mono (sup_bot_eq (target a)).le
  exact hbind.mono (sup_bot_eq source).ge

/-- A later part of the source is given to a pass. -/
theorem bindRight (hp : p.Covers survey header source target)
    (hf : ∀ a, (f a).Covers survey header (rest ⊔ target a) final) :
    (p >>= f).Covers survey header (rest ⊔ source) final := by
  rw [sup_comm]
  refine bind hp fun a => ?_
  rw [sup_comm]
  exact hf a

/-- A pass that has no part in it. -/
theorem after (hp : p.DrawsNothing) (hf : ∀ a, (f a).Covers survey header source final) :
    (p >>= f).Covers survey header source final := by
  have hbot : p.Covers survey header ⊥ fun _ => ⊥ := quiet hp fun _ => bot_le
  have hbind : (p >>= f).Covers survey header (⊥ ⊔ source) final :=
    bind hbot fun a => (hf a).mono (bot_sup_eq source).le
  exact hbind.mono (bot_sup_eq source).ge

/-- New names are given to what follows. -/
theorem freshList {roles : List String} {f : List String → Pass β}
    (hf : ∀ xs, (f xs).Covers survey header (survey.names xs ⊔ source) final) :
    (Pass.freshList roles >>= f).Covers survey header source final := by
  have hnames : (Pass.freshList roles).Covers survey header ⊥ survey.names := by
    intro supply _
    refine ⟨_, .freshList supply roles, Step.le_gathered_value ?_⟩
    rw [sup_bot_eq]
    exact le_rfl
  exact (hnames.bind hf).mono le_sup_right

/-- A name that is taken has to be gathered in what follows. -/
theorem fresh {role : String} {f : String → Pass β}
    (hf : ∀ x, (f x).Covers survey header (survey.name x ⊔ source) final) :
    (Pass.fresh role >>= f).Covers survey header source final := by
  have hname : (Pass.fresh role).Covers survey header ⊥ survey.name := by
    intro supply _
    refine ⟨_, .fresh supply role, Step.le_gathered_value ?_⟩
    rw [Survey.names_cons, Survey.names_nil, sup_bot_eq, sup_bot_eq]
    exact le_rfl
  exact (hname.bind hf).mono le_sup_right

/-- Emitted code gathers what it counts for. -/
theorem emit {target : Unit → L} {code : List Stmt} (h : source ≤ survey.stmts header code) :
    (Pass.emit code).Covers survey header source target :=
  quiet (fun _ => rfl) fun _ => Step.le_gathered_code h

theorem emitOne {target : Unit → L} (stmt : Stmt) (h : source ≤ survey.stmt header stmt) :
    (Pass.emit [stmt]).Covers survey header source target :=
  .emit (h.trans (survey.stmts_singleton header stmt).ge)

/-- Where the emitted code has everything, all that is asked of what follows is to take no name. -/
theorem emit_bind {code : List Stmt} {f : Unit → Pass β} (h : source ≤ survey.stmts header code)
    (hf : (f ()).DrawsNothing) : (Pass.emit code >>= f).Covers survey header source final := by
  have hemit : (Pass.emit code).Covers survey header source fun _ => ⊥ := .emit h
  exact hemit.next fun _ => quiet hf fun _ => bot_le

theorem emitOne_bind {f : Unit → Pass β} (stmt : Stmt) (h : source ≤ survey.stmt header stmt)
    (hf : (f ()).DrawsNothing) : (Pass.emit [stmt] >>= f).Covers survey header source final :=
  .emit_bind (h.trans (survey.stmts_singleton header stmt).ge) hf

/-- Notes gather what they count for. -/
theorem note {target : Unit → L} {notes : Notes} (h : source ≤ survey.noted notes) :
    (Pass.note notes).Covers survey header source target :=
  quiet (fun _ => rfl) fun _ => Step.le_gathered_notes h

/-- A computation with a fault gathers anything. -/
theorem report {target : Unit → L} (cause : Cause) (span : Span) :
    (Pass.report cause span).Covers survey header source target := by
  intro supply hfaults
  cases hfaults

/-- Nothing has to be gathered after a fault. -/
theorem report_bind {f : Unit → Pass β} (cause : Cause) (span : Span) :
    (Pass.report cause span >>= f).Covers survey header source final := by
  intro supply hfaults
  cases hfaults

theorem ite {condition : Prop} [Decidable condition]
    (hp : condition → p.Covers survey header source target)
    (hq : ¬condition → q.Covers survey header source target) :
    (if condition then p else q).Covers survey header source target := by
  by_cases h : condition
  · rw [if_pos h]
    exact hp h
  · rw [if_neg h]
    exact hq h

/-- Collected code is part of the value. -/
theorem collect (hp : p.Covers survey header source target) (outer : Bool) :
    p.collect.Covers survey outer source fun x => target x.1 ⊔ survey.stmts header x.2 := by
  intro supply hfaults
  obtain ⟨xs, hxs, hcovers⟩ := hp supply hfaults
  exact ⟨xs, hxs, hcovers.trans (sup_le_sup_right le_sup_left _)⟩

/-- A function literal has what its body has, and the names that are made up in it. -/
theorem func {p : Pass Block} {params : List Param} {returns : Option Ty} {span : Span}
    (hcode : ∀ supply, (p supply).code = [])
    (h : p.Covers survey header source (survey.block survey.literal)) :
    (p >>= fun body => Pure.pure (.func params returns body span)).Covers survey header
      (survey.func params source) survey.expr := by
  intro supply hfaults
  have hbody : (p supply).notes.faults = [] := by
    rw [notes_bind, Notes.faults_append, List.append_eq_nil_iff] at hfaults
    exact hfaults.1
  obtain ⟨xs, hxs, hcovers⟩ := h supply hbody
  rw [Step.gathered, hcode, Survey.stmts_nil, sup_bot_eq] at hcovers
  obtain ⟨hnames, hsource⟩ := sup_le_iff.mp hcovers
  set body := survey.block survey.literal (p supply).value
  set notes := (p supply).notes
  have hwhole : survey.func params (body ⊔ survey.noted notes) ≤
      survey.func params body ⊔ survey.noted (notes ++ .empty) :=
    (survey.func_noted _ _ _).trans (sup_le_sup_left (survey.noted_left _ _) _)
  refine ⟨xs, hxs, le_trans (sup_le ?_ ?_) (hwhole.trans (sup_le_sup_right le_sup_left _))⟩
  · exact survey.names_le_func hnames
  · exact survey.func_mono params hsource

end Pass.Covers

/-- A definition gathers its names and its value. -/
theorem Survey.le_define (survey : Survey L) (header : Bool) (xs : List String) (e : Expr)
    (rest : List Stmt) :
    survey.names xs ⊔ survey.expr e ≤ survey.stmts header (Stmt.define xs [e] :: rest) := by
  rw [Survey.stmts_cons, Stmt.define, Survey.stmt_assign, Survey.exprs_singleton]
  exact le_sup_left

/-! ### Passes over a unit -/

/-- What is gathered in an item. -/
def Survey.item (survey : Survey L) : Item → L
  | .func f => survey.block false f.body
  | .const c => survey.expr c.value
  | _ => ⊥

/-- What is gathered in all elements of a list. -/
def gatherAll {α : Type} (gather : α → L) : List α → L
  | [] => ⊥
  | a :: as => gather a ⊔ gatherAll gather as

section GatherAll

variable {α : Type} {gather : α → L}

/-- What an element counts for is gathered in the list. -/
theorem le_gatherAll {a : α} {as : List α} (h : a ∈ as) : gather a ≤ gatherAll gather as := by
  induction as with
  | nil => cases h
  | cons other rest ih =>
    rcases List.mem_cons.mp h with rfl | h
    · exact le_sup_left
    · exact le_sup_of_le_right (ih h)

/-- A list counts for no more than a bound on its elements. -/
theorem gatherAll_le {as : List α} {l : L} (h : ∀ a ∈ as, gather a ≤ l) :
    gatherAll gather as ≤ l := by
  induction as with
  | nil => exact bot_le
  | cons a rest ih =>
    obtain ⟨ha, hrest⟩ := List.forall_mem_cons.mp h
    exact sup_le ha (ih hrest)

end GatherAll

/-- Without a fault, the source is gathered in the value or in the notes. -/
def Noted.Covers {α : Type} (survey : Survey L) (source : L) (x : Noted α) (target : α → L) :
    Prop :=
  x.notes.faults = [] → source ≤ target x.value ⊔ survey.noted x.notes

namespace Noted.Covers

variable {α β : Type} {source source' rest : L} {x : Noted α} {f : α → Noted β} {target : α → L}
  {final : β → L}

theorem pure {a : α} (h : source ≤ target a) :
    (Pure.pure a : Noted α).Covers survey source target :=
  fun _ => le_sup_of_le_left h

/-- A source that counts for less is gathered, too. -/
theorem mono (h : x.Covers survey source target) (hle : source' ≤ source) :
    x.Covers survey source' target :=
  fun hfaults => hle.trans (h hfaults)

theorem bot : x.Covers survey ⊥ target := fun _ => bot_le

/-- A part of the source is given to a pass. What becomes of it and the rest are given to what
follows. -/
theorem bind (hx : x.Covers survey source target)
    (hf : ∀ a, (f a).Covers survey (target a ⊔ rest) final) :
    (x >>= f).Covers survey (source ⊔ rest) final := by
  intro hfaults
  rw [notes_bind, Notes.faults_append, List.append_eq_nil_iff] at hfaults
  set whole := final (f x.value).value ⊔ survey.noted (x.notes ++ (f x.value).notes)
  obtain ⟨htarget, hrest⟩ : target x.value ≤ whole ∧ rest ≤ whole :=
    sup_le_iff.mp ((hf _ hfaults.2).trans (sup_le_sup_left (survey.noted_right _ _) _))
  refine sup_le ((hx hfaults.1).trans (sup_le htarget ?_)) hrest
  exact le_sup_of_le_right (survey.noted_left _ _)

/-- The whole source is given to a pass. -/
theorem next (hx : x.Covers survey source target)
    (hf : ∀ a, (f a).Covers survey (target a) final) : (x >>= f).Covers survey source final := by
  have hbind : (x >>= f).Covers survey (source ⊔ ⊥) final :=
    bind hx fun a => (hf a).mono (sup_bot_eq (target a)).le
  exact hbind.mono (sup_bot_eq source).ge

/-- A pass that has no part in it. -/
theorem after (hf : ∀ a, (f a).Covers survey source final) :
    (x >>= f).Covers survey source final := by
  have hbot : x.Covers survey ⊥ fun _ => ⊥ := bot
  have hbind : (x >>= f).Covers survey (⊥ ⊔ source) final :=
    bind hbot fun a => (hf a).mono (bot_sup_eq source).le
  exact hbind.mono (bot_sup_eq source).ge

/-- What is given to a pass is gathered in its notes. -/
theorem both (hx : x.Covers survey source fun _ => ⊥) (hf : ∀ a, (f a).Covers survey rest final) :
    (x >>= f).Covers survey (source ⊔ rest) final :=
  hx.bind fun a => (hf a).mono (bot_sup_eq rest).le

/-- What the first of two steps has noted is gathered. -/
theorem last (hx : x.Covers survey source fun _ => ⊥) : (x >>= f).Covers survey source final :=
  hx.next fun _ => bot

/-- What is gathered element by element is gathered in the list. -/
theorem mapM {gather : α → L} (hf : ∀ a, (f a).Covers survey (gather a) final) (as : List α) :
    (as.mapM f).Covers survey (gatherAll gather as) (gatherAll final) := by
  induction as with
  | nil => exact pure le_rfl
  | cons a rest ih =>
    rw [List.mapM_cons]
    refine (hf a).bind fun b => ?_
    rw [sup_comm]
    refine ih.bind fun bs => pure ?_
    exact (sup_comm _ _).le

/-- A step that succeeds gathers its source in its result and in its notes. -/
theorem of_outcome {a : α} (h : x.Covers survey source target) (houtcome : x.outcome = .ok a) :
    source ≤ target a ⊔ survey.noted x.notes := by
  obtain ⟨hfaults, rfl⟩ := Noted.outcome_eq_ok.mp houtcome
  exact h hfaults

end Noted.Covers

end Desugar
