import Desugar.Proofs.Dispatch.Scope
import Desugar.Proofs.Tree.Lowered

/-!
# Bound names and visible declarations

The pass over a function follows the bound names through the code as a list, from which names are
taken when they are declared again. `Follows` says that the list has exactly the names whose
innermost visible declaration is a go-binding. Where the pass leaves code alone, because no name is
bound and no go-binding occurs in it, the judgement leaves it as it is too.

- `Dispatch.Follows.hide` and `Dispatch.Follows.bind`: declarations and the list stay in step.
- `Dispatch.redirected_refl` and the theorems beside it: code that is left alone.
-/

namespace Desugar

/-- The innermost declaration of a name is the one in front, if there is one. -/
theorem Visible.lookup_append (kind : Declared) (names : List String) (Γ : Visible)
    (name : String) :
    (names.map (·, kind) ++ Γ).lookup name =
      if name ∈ names then some kind else Γ.lookup name := by
  induction names with
  | nil => simp
  | cons first rest ih =>
    rw [List.map_cons, List.cons_append, List.lookup_cons, ih]
    by_cases hname : name = first
    · simp [hname]
    · have hne : (name == first) = false := by simpa using hname
      simp [hne, hname]

namespace Dispatch

/-- The bound names are those whose innermost declaration is a go-binding. -/
def Follows (bound : Bound) (Γ : Visible) : Prop := ∀ name, name ∈ bound ↔ Γ.IsTask name

section Follows

variable {bound : Bound} {Γ : Visible}

/-- At the start of a function no name is bound, and none is declared. -/
theorem follows_nil : Follows [] [] := by simp [Follows, Visible.IsTask]

/-- A plain declaration hides the go-binding of its name, both in the bound names and in the scope.
-/
theorem Follows.hide (h : Follows bound Γ) (names : List String) :
    Follows (bound.hide names) (.plain names ++ Γ) := by
  intro name
  rw [Visible.IsTask, Visible.plain, Visible.lookup_append, Bound.hide, List.mem_filter]
  by_cases hname : name ∈ names
  · simp [hname]
  · simpa [hname, Visible.IsTask] using h name

/-- A go-binding declares its names as states, both in the bound names and in the scope. -/
theorem Follows.bind (h : Follows bound Γ) (names : List Ident) (call : Expr) (span : Span) :
    Follows (stateNames names ++ bound) ((Stmt.bind names call span).declares ++ Γ) := by
  intro name
  rw [Visible.IsTask, Stmt.declares, Visible.lookup_append, List.mem_append, stateNames]
  by_cases hname : name ∈ (names.filter fun name => !name.isBlank).map (·.name)
  · simp [hname]
  · simpa [hname, Visible.IsTask] using h name

/-- Only a go-binding brings a task into scope. -/
theorem Follows.declares {stmt : Stmt} (h : Follows [] Γ)
    (hstmt : ∀ names call span, stmt ≠ .bind names call span) :
    Follows [] (stmt.declares ++ Γ) := by
  cases stmt with
  | bind names call span => exact absurd rfl (hstmt names call span)
  | var names ty values span => exact h.hide (names.map (·.name))
  | assign targets op values span =>
    cases op with
    | define => exact h.hide (targets.filterMap Expr.asName?)
    | store => exact h
    | update op => exact h
  | _ => exact h

end Follows

variable {cx : Context}

/-! ### Code that is left alone

Where no task is visible and no go-binding occurs, everything is left as it is. Go-bindings in loop
headers escape the search for them, so there have to be none. Whether a statement is part of a
header is kept by `header`. -/

mutual
/-- Where no name is bound and no go-binding follows, every tree is redirected to itself. -/
theorem redirected_refl {Γ : Visible} (hΓ : Follows [] Γ) :
    ∀ e : Expr, e.hasBinding = false → Within Node.hasPlainHeader e.nodes → Redirected cx Γ e e
  | .ident _ _, _, _ => .ident
  | .lit _ _, _, _ => .lit
  | .ofType _ _, _, _ => .ofType
  | .call callee args _, hb, hn => by
    obtain ⟨hcallee, hargs⟩ := Bool.or_eq_false_iff.mp hb
    obtain ⟨-, hcallee', hargs'⟩ := within_pair.mp hn
    exact .call (redirected_refl hΓ callee hcallee hcallee')
      (redirectedList_refl hΓ args hargs hargs')
  | .template segments _, hb, hn =>
    .template (redirectedSegments_refl hΓ segments hb (within_cons.mp hn).2)
  | .attempt operand _, hb, hn =>
    .attempt (redirected_refl hΓ operand hb (within_cons.mp hn).2)
  | .binary _ left right _, hb, hn => by
    obtain ⟨hleft, hright⟩ := Bool.or_eq_false_iff.mp hb
    obtain ⟨-, hleft', hright'⟩ := within_pair.mp hn
    exact .binary (redirected_refl hΓ left hleft hleft') (redirected_refl hΓ right hright hright')
  | .unary _ operand _, hb, hn => by
    refine .unary (fun _ name _ htask => ?_) (redirected_refl hΓ operand hb (within_cons.mp hn).2)
    exact nomatch (hΓ name).mpr htask
  | .selector base _ _, hb, hn => .selector (redirected_refl hΓ base hb (within_cons.mp hn).2)
  | .index base index _, hb, hn => by
    obtain ⟨hbase, hindex⟩ := Bool.or_eq_false_iff.mp hb
    obtain ⟨-, hbase', hindex'⟩ := within_pair.mp hn
    exact .index (redirected_refl hΓ base hbase hbase') (redirected_refl hΓ index hindex hindex')
  | .composite _ elements _, hb, hn =>
    .composite (redirectedElements_refl hΓ elements hb (within_cons.mp hn).2)
  | .func params _ body _, hb, hn =>
    .func (redirectedBlock_refl (hΓ.hide (params.map (·.name))) false body hb nofun
      (within_cons.mp hn).2)

theorem redirectedList_refl {Γ : Visible} (hΓ : Follows [] Γ) :
    ∀ es : List Expr, Expr.hasBindingList es = false →
      Within Node.hasPlainHeader (Expr.nodesList es) → RedirectedList cx Γ es es
  | [], _, _ => .nil
  | e :: rest, hb, hn => by
    obtain ⟨he, hrest⟩ := Bool.or_eq_false_iff.mp hb
    obtain ⟨he', hrest'⟩ := within_append.mp hn
    exact .cons (redirected_refl hΓ e he he') (redirectedList_refl hΓ rest hrest hrest')

theorem redirectedOption_refl {Γ : Visible} (hΓ : Follows [] Γ) :
    ∀ e : Option Expr, Expr.hasBindingOption e = false →
      Within Node.hasPlainHeader (Expr.nodesOption e) → RedirectedOption cx Γ e e
  | none, _, _ => .none
  | some e, hb, hn => .some (redirected_refl hΓ e hb hn)

theorem redirectedSegments_refl {Γ : Visible} (hΓ : Follows [] Γ) :
    ∀ segments : List Segment, Segment.hasBindingList segments = false →
      Within Node.hasPlainHeader (Segment.nodesList segments) →
      RedirectedSegments cx Γ segments segments
  | [], _, _ => .nil
  | .text _ :: rest, hb, hn => .text (redirectedSegments_refl hΓ rest hb hn)
  | .embed value _ _ :: rest, hb, hn => by
    obtain ⟨hvalue, hrest⟩ := Bool.or_eq_false_iff.mp hb
    obtain ⟨hvalue', hrest'⟩ := within_append.mp hn
    exact .embed (redirected_refl hΓ value hvalue hvalue')
      (redirectedSegments_refl hΓ rest hrest hrest')

theorem redirectedElements_refl {Γ : Visible} (hΓ : Follows [] Γ) :
    ∀ elements : List Element, Element.hasBindingList elements = false →
      Within Node.hasPlainHeader (Element.nodesList elements) →
      RedirectedElements cx Γ elements elements
  | [], _, _ => .nil
  | ⟨key, value⟩ :: rest, hb, hn => by
    obtain ⟨hb, hrest⟩ := Bool.or_eq_false_iff.mp hb
    obtain ⟨hkey, hvalue⟩ := Bool.or_eq_false_iff.mp hb
    obtain ⟨hn, hrest'⟩ := within_append.mp hn
    obtain ⟨hkey', hvalue'⟩ := within_append.mp hn
    exact .cons (redirectedOption_refl hΓ key hkey hkey') (redirected_refl hΓ value hvalue hvalue')
      (redirectedElements_refl hΓ rest hrest hrest')

theorem redirectedBlock_refl {Γ : Visible} (hΓ : Follows [] Γ) (header : Bool) :
    ∀ block : Block, block.hasBindingIn header = false → (header = true → block.binds = false) →
      Within Node.hasPlainHeader block.nodes → RedirectedBlock cx Γ block block
  | ⟨stmts, _⟩, hb, hh, hn => .mk (redirectedStmts_refl hΓ header stmts hb hh hn)

theorem redirectedStmts_refl {Γ : Visible} (hΓ : Follows [] Γ) (header : Bool) :
    ∀ stmts : List Stmt, Stmt.hasBindingInList header stmts = false →
      (header = true → Stmt.bindsList stmts = false) →
      Within Node.hasPlainHeader (Stmt.nodesList stmts) → RedirectedStmts cx Γ stmts stmts
  | [], _, _, _ => .nil
  | stmt :: rest, hb, hh, hn => by
    obtain ⟨hstmt, hrest⟩ := Bool.or_eq_false_iff.mp hb
    obtain ⟨hstmt', hrest'⟩ := within_append.mp hn
    have hplain : header = true → stmt.binds = false :=
      fun h => (Bool.or_eq_false_iff.mp (hh h)).1
    -- In a header a go-binding is ruled out by `binds`, elsewhere by the search.
    have hdeclares : Follows [] (stmt.declares ++ Γ) := by
      refine hΓ.declares ?_
      rintro names call span rfl
      cases header with
      | false => cases hstmt
      | true => cases hplain rfl
    exact .cons (redirectedStmt_refl hΓ header stmt hstmt hplain hstmt')
      (redirectedStmts_refl hdeclares header rest hrest
        (fun h => (Bool.or_eq_false_iff.mp (hh h)).2) hrest')

theorem redirectedStmt_refl {Γ : Visible} (hΓ : Follows [] Γ) (header : Bool) :
    ∀ stmt : Stmt, stmt.hasBindingIn header = false → (header = true → stmt.binds = false) →
      Within Node.hasPlainHeader stmt.nodes → RedirectedStmt cx Γ stmt [stmt]
  | .bind _ _ _, hb, hh, _ => by
    cases header with
    | false => cases hb
    | true => cases hh rfl
  | .var _ _ values _, hb, _, hn =>
    .var (redirectedList_refl hΓ values hb (within_cons.mp hn).2)
  | .assign targets _ values _, hb, _, hn => by
    obtain ⟨htargets, hvalues⟩ := Bool.or_eq_false_iff.mp hb
    obtain ⟨-, htargets', hvalues'⟩ := within_pair.mp hn
    exact .assign (redirectedList_refl hΓ targets htargets htargets')
      (redirectedList_refl hΓ values hvalues hvalues')
  | .expr value, hb, _, hn => .expr (redirected_refl hΓ value hb (within_cons.mp hn).2)
  | .ret values _, hb, _, hn => .ret (redirectedList_refl hΓ values hb (within_cons.mp hn).2)
  | .throw value _, hb, _, hn => .throw (redirected_refl hΓ value hb (within_cons.mp hn).2)
  | .go call _, hb, _, hn => .go (redirected_refl hΓ call hb (within_cons.mp hn).2)
  | .defer call _, hb, _, hn => .defer (redirected_refl hΓ call hb (within_cons.mp hn).2)
  | .cond branch, hb, hh, hn =>
    .cond (redirectedIf_refl hΓ header branch hb hh (within_cons.mp hn).2)
  | .loop clause body _, hb, hh, hn => by
    obtain ⟨hclause, hbody⟩ := Bool.or_eq_false_iff.mp hb
    obtain ⟨hloop, hclause', hbody'⟩ := within_pair.mp hn
    -- The search counts no go-binding of a loop header, so the header itself has to have none.
    obtain ⟨hbinds, -⟩ := Bool.and_eq_true_iff.mp hloop
    have hbinds : clause.binds = false := by simpa using hbinds
    have hbody'' : header = true → body.binds = false :=
      fun h => (Bool.or_eq_false_iff.mp (hh h)).2
    obtain ⟨hredirected, hfollows⟩ := redirectedClause_refl hΓ clause hclause hbinds hclause'
    exact .loop hredirected (redirectedBlock_refl hfollows header body hbody hbody'' hbody')
  | .block body, hb, hh, hn =>
    .block (redirectedBlock_refl hΓ header body hb hh (within_cons.mp hn).2)
  | .breakLoop _, _, _, _ => .breakLoop
  | .continueLoop _, _, _, _ => .continueLoop

theorem redirectedIf_refl {Γ : Visible} (hΓ : Follows [] Γ) (header : Bool) :
    ∀ branch : If, branch.hasBindingIn header = false → (header = true → branch.binds = false) →
      Within Node.hasPlainHeader branch.nodes → RedirectedIf cx Γ branch branch
  | ⟨condition, thenBlock, otherwise, _⟩, hb, hh, hn => by
    obtain ⟨hb, hotherwise⟩ := Bool.or_eq_false_iff.mp hb
    obtain ⟨hcondition, hthen⟩ := Bool.or_eq_false_iff.mp hb
    obtain ⟨hn, hotherwise'⟩ := within_append.mp hn
    obtain ⟨hcondition', hthen'⟩ := within_append.mp hn
    exact .mk (redirected_refl hΓ condition hcondition hcondition')
      (redirectedBlock_refl hΓ header thenBlock hthen
        (fun h => (Bool.or_eq_false_iff.mp (hh h)).1) hthen')
      (redirectedElse_refl hΓ header otherwise hotherwise
        (fun h => (Bool.or_eq_false_iff.mp (hh h)).2) hotherwise')

theorem redirectedElse_refl {Γ : Visible} (hΓ : Follows [] Γ) (header : Bool) :
    ∀ otherwise : Else, otherwise.hasBindingIn header = false →
      (header = true → otherwise.binds = false) →
      Within Node.hasPlainHeader otherwise.nodes → RedirectedElse cx Γ otherwise otherwise
  | .none, _, _, _ => .none
  | .block body, hb, hh, hn => .block (redirectedBlock_refl hΓ header body hb hh hn)
  | .elseIf branch, hb, hh, hn => .elseIf (redirectedIf_refl hΓ header branch hb hh hn)

theorem redirectedClause_refl {Γ : Visible} (hΓ : Follows [] Γ) :
    ∀ clause : Clause, clause.hasBinding = false → clause.binds = false →
      Within Node.hasPlainHeader clause.nodes →
      RedirectedClause cx Γ clause clause ∧ Follows [] (clause.declares ++ Γ)
  | .infinite, _, _, _ => ⟨.infinite, hΓ⟩
  | .condition test, hb, _, hn => ⟨.condition (redirected_refl hΓ test hb hn), hΓ⟩
  | .three first condition post, hb, hh, hn => by
    obtain ⟨hb, hpost⟩ := Bool.or_eq_false_iff.mp hb
    obtain ⟨hfirst, hcondition⟩ := Bool.or_eq_false_iff.mp hb
    obtain ⟨hfirstBinds, hpostBinds⟩ := Bool.or_eq_false_iff.mp hh
    obtain ⟨hn, hpost'⟩ := within_append.mp hn
    obtain ⟨hfirst', hcondition'⟩ := within_append.mp hn
    obtain ⟨hheader, hfollows⟩ := redirectedHeader_refl hΓ first hfirst hfirstBinds hfirst'
    exact ⟨.three hheader (redirectedOption_refl hfollows condition hcondition hcondition')
      (redirectedHeader_refl hfollows post hpost hpostBinds hpost').1, hfollows⟩
  | .range key value define source, hb, _, hn => by
    refine ⟨.range (redirected_refl hΓ source hb hn), ?_⟩
    cases define with
    | true => exact hΓ.hide ((key.toList ++ value.toList).map (·.name))
    | false => exact hΓ

theorem redirectedHeader_refl {Γ : Visible} (hΓ : Follows [] Γ) :
    ∀ stmt : Option Stmt, Stmt.hasBindingOption stmt = false → Stmt.bindsOption stmt = false →
      Within Node.hasPlainHeader (Stmt.nodesOption stmt) →
      RedirectedHeader cx Γ stmt stmt ∧ Follows [] (Stmt.declaresOption stmt ++ Γ)
  | none, _, _, _ => ⟨.none, hΓ⟩
  | some stmt, hb, hh, hn => by
    refine ⟨.some (redirectedStmt_refl hΓ true stmt hb (fun _ => hh) hn), hΓ.declares ?_⟩
    rintro names call span rfl
    cases hh
end

end Dispatch

end Desugar
