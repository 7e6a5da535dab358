import Desugar.Tree.Rebuild
import Desugar.Proofs.Propagation.Account
import Desugar.Proofs.Propagation.Order

/-!
# Code without a `try` stays where it is

The header of a loop has nowhere to put code: what lowering a condition emits is dropped, and of
what takes the place of a post statement only the last statement is kept. Nothing is lost, as both
are lowered only if no `try` occurs in them outside function literals. Then every statement is
replaced by one statement, and an expression is rebuilt with other function literals in it. The
literals may hold a `try`, which is hoisted inside their bodies.

- `Expr.literals`: the function literals of an expression, and `Expr.onLiteral`.
- `Propagation.lowerExpr_eq_rebuild`: only function literals are rewritten.
- `Propagation.exists_lowerStmt_code`: a statement is replaced by one statement.
- `Propagation.loopCondition_eq` and `Propagation.lowerPost_eq`: loop headers lose nothing.
-/

namespace Desugar

namespace Expr

/-- The function literals of an expression, in evaluation order, without those inside of them. -/
def literals (e : Expr) : List Expr := (e.visit outsideFuncs).filter isFunc

/-- Replaces a node if it is a function literal. -/
def onLiteral (f : Expr → Pass Expr) (node : Expr) : Pass Expr :=
  if node.isFunc then f node else pure node

/-- What is left of a supply after the function literals among some expressions were replaced. -/
def supplyAfter (f : Expr → Pass Expr) (s : NameSupply) (es : List Expr) : NameSupply :=
  (es.filter isFunc).foldl (fun s literal => (f literal s).supply) s

/-- Function literals are replaced one after another. -/
theorem supplyAfter_append (f : Expr → Pass Expr) (s : NameSupply) (es rest : List Expr) :
    supplyAfter f s (es ++ rest) = supplyAfter f (supplyAfter f s es) rest := by
  rw [supplyAfter, List.filter_append, List.foldl_append]
  rfl

/-- A node that is no function literal takes no name itself. -/
theorem supplyAfter_visited (f : Expr → Pass Expr) (s : NameSupply) {node : Expr}
    (h : node.isFunc = false) (parts : List Expr) :
    supplyAfter f s (visited outsideFuncs node parts) = supplyAfter f s parts := by
  simp [supplyAfter, visited, outsideFuncs, h]

end Expr

section Supply

open Desugar.Expr (onLiteral outsideFuncs supplyAfter supplyAfter_append supplyAfter_visited)

variable (f : Expr → Pass Expr)

mutual
/-- Only function literals take names when all else is kept. -/
theorem Expr.supply_rebuild : ∀ (e : Expr) (s : NameSupply),
    (e.rebuild false (onLiteral f) s).supply = supplyAfter f s (e.visit outsideFuncs)
  | .ident _ _, _ | .lit _ _, _ | .ofType _ _, _ => rfl
  | .call callee args _, s => by
    rw [Expr.visit, supplyAfter_visited f s rfl, supplyAfter_append, ← Expr.supply_rebuild callee,
      ← Expr.supply_rebuildList args]
    rfl
  | .template segments _, s => by
    rw [Expr.visit, supplyAfter_visited f s rfl, ← Segment.supply_rebuildList segments]
    rfl
  | .attempt operand _, s => by
    rw [Expr.visit, supplyAfter_visited f s rfl, ← Expr.supply_rebuild operand]
    rfl
  | .binary _ left right _, s => by
    rw [Expr.visit, supplyAfter_visited f s rfl, supplyAfter_append, ← Expr.supply_rebuild left,
      ← Expr.supply_rebuild right]
    rfl
  | .unary _ operand _, s => by
    rw [Expr.visit, supplyAfter_visited f s rfl, ← Expr.supply_rebuild operand]
    rfl
  | .selector base _ _, s => by
    rw [Expr.visit, supplyAfter_visited f s rfl, ← Expr.supply_rebuild base]
    rfl
  | .index base index _, s => by
    rw [Expr.visit, supplyAfter_visited f s rfl, supplyAfter_append, ← Expr.supply_rebuild base,
      ← Expr.supply_rebuild index]
    rfl
  | .composite _ elements _, s => by
    rw [Expr.visit, supplyAfter_visited f s rfl, ← Element.supply_rebuildList elements]
    rfl
  | .func _ _ _ _, _ => rfl

/-- Rebuilding expressions draws on the supply for their function literals only. -/
theorem Expr.supply_rebuildList : ∀ (es : List Expr) (s : NameSupply),
    (Expr.rebuildList false (onLiteral f) es s).supply =
      supplyAfter f s (Expr.visitList outsideFuncs es)
  | [], _ => rfl
  | e :: rest, s => by
    rw [Expr.visitList, supplyAfter_append, ← Expr.supply_rebuild e, ← Expr.supply_rebuildList rest]
    rfl

theorem Segment.supply_rebuildList : ∀ (segments : List Segment) (s : NameSupply),
    (Segment.rebuildList false (onLiteral f) segments s).supply =
      supplyAfter f s (Segment.visitList outsideFuncs segments)
  | [], _ => rfl
  | .text _ :: rest, s => by
    rw [Segment.visitList, ← Segment.supply_rebuildList rest]
    rfl
  | .embed value _ _ :: rest, s => by
    rw [Segment.visitList, supplyAfter_append, ← Expr.supply_rebuild value,
      ← Segment.supply_rebuildList rest]
    rfl

theorem Element.supply_rebuildList : ∀ (elements : List Element) (s : NameSupply),
    (Element.rebuildList false (onLiteral f) elements s).supply =
      supplyAfter f s (Element.visitList outsideFuncs elements)
  | [], _ => rfl
  | ⟨none, value⟩ :: rest, s => by
    rw [Element.visitList, Expr.visitOption, List.nil_append, supplyAfter_append,
      ← Expr.supply_rebuild value, ← Element.supply_rebuildList rest]
    rfl
  | ⟨some key, value⟩ :: rest, s => by
    rw [Element.visitList, Expr.visitOption, supplyAfter_append, supplyAfter_append,
      ← Expr.supply_rebuild key, ← Expr.supply_rebuild value, ← Element.supply_rebuildList rest]
    rfl
end

end Supply

/-- The statement is a `throw`. -/
def Stmt.isThrow : Stmt → Bool
  | .throw _ _ => true
  | _ => false

namespace Propagation

variable (cx : Context) (frame : Frame)

/-! ### Expressions -/

/-- Lowers function literals and keeps all other nodes. -/
abbrev lowerLiteral : Expr → Pass Expr := Expr.onLiteral (lowerExpr cx frame)

mutual
/-- Lowering an expression without a `try` is lowering its function literals. -/
theorem lowerExpr_eq_rebuild : ∀ e : Expr, e.containsAttempt = false →
    lowerExpr cx frame e = e.rebuild false (lowerLiteral cx frame)
  | .ident _ _, _ | .lit _ _, _ | .ofType _ _, _ => rfl
  | .attempt _ _, h => by simp [Expr.containsAttempt_eq (.attempt ..), Expr.isAttempt] at h
  | .binary op left right _, h => by
    obtain ⟨hl, hr⟩ : left.containsAttempt = false ∧ right.containsAttempt = false := by
      simpa [Expr.containsAttempt_eq (.binary ..), Expr.isAttempt, Expr.parts] using h
    rw [lowerExpr, hr, Bool.and_false, lowerExpr_eq_rebuild left hl, lowerExpr_eq_rebuild right hr]
    rfl
  | .call callee args _, h => by
    obtain ⟨hc, ha⟩ : callee.containsAttempt = false ∧ args.any Expr.containsAttempt = false := by
      simpa [Expr.containsAttempt_eq (.call ..), Expr.isAttempt, Expr.parts] using h
    rw [lowerExpr, ha, lowerExpr_eq_rebuild callee hc, lowerOrdered_eq_rebuild args ha]
    rfl
  | .unary _ operand _, h => by
    have ho : operand.containsAttempt = false := by
      simpa [Expr.containsAttempt_eq (.unary ..), Expr.isAttempt, Expr.parts] using h
    rw [lowerExpr, lowerExpr_eq_rebuild operand ho]
    rfl
  | .selector base _ _, h => by
    have hb : base.containsAttempt = false := by
      simpa [Expr.containsAttempt_eq (.selector ..), Expr.isAttempt, Expr.parts] using h
    rw [lowerExpr, lowerExpr_eq_rebuild base hb]
    rfl
  | .index base index _, h => by
    obtain ⟨hb, hi⟩ : base.containsAttempt = false ∧ index.containsAttempt = false := by
      simpa [Expr.containsAttempt_eq (.index ..), Expr.isAttempt, Expr.parts] using h
    rw [lowerExpr, hi, lowerExpr_eq_rebuild base hb, lowerExpr_eq_rebuild index hi]
    rfl
  | .composite _ elements _, h => by
    have he : elements.any Element.containsAttempt = false := by
      rw [Expr.containsAttempt_eq, Expr.parts, any_containsAttempt_elements] at h
      simpa [Expr.isAttempt] using h
    rw [lowerExpr, lowerElements_eq_rebuild elements he]
    rfl
  | .template segments _, h => by
    have hg : segments.any Segment.containsAttempt = false := by
      rw [Expr.containsAttempt_eq, Expr.parts, any_containsAttempt_segments] at h
      simpa [Expr.isAttempt] using h
    rw [lowerExpr, lowerSegments_eq_rebuild segments hg]
    rfl
  | .func _ _ _ _, _ => rfl

/-- Without a `try`, operands are rebuilt with their function literals lowered. -/
theorem lowerOrdered_eq_rebuild : ∀ es : List Expr, es.any Expr.containsAttempt = false →
    lowerOrdered cx frame es = Expr.rebuildList false (lowerLiteral cx frame) es
  | [], _ => rfl
  | e :: rest, h => by
    obtain ⟨he, hrest⟩ : e.containsAttempt = false ∧ rest.any Expr.containsAttempt = false := by
      simpa using h
    rw [lowerOrdered, hrest, lowerExpr_eq_rebuild e he, lowerOrdered_eq_rebuild rest hrest]
    rfl

theorem lowerElements_eq_rebuild : ∀ elements : List Element,
    elements.any Element.containsAttempt = false →
    lowerElements cx frame elements = Element.rebuildList false (lowerLiteral cx frame) elements
  | [], _ => rfl
  | ⟨none, value⟩ :: rest, h => by
    obtain ⟨hv, hrest⟩ : value.containsAttempt = false ∧
        rest.any Element.containsAttempt = false := by
      simpa [Element.containsAttempt] using h
    rw [lowerElements, hrest, lowerExpr_eq_rebuild value hv, lowerElements_eq_rebuild rest hrest]
    rfl
  | ⟨some key, value⟩ :: rest, h => by
    obtain ⟨⟨hk, hv⟩, hrest⟩ : (key.containsAttempt = false ∧ value.containsAttempt = false) ∧
        rest.any Element.containsAttempt = false := by
      simpa [Element.containsAttempt] using h
    simp only [lowerElements, hrest, hv, lowerExpr_eq_rebuild key hk, lowerExpr_eq_rebuild value hv,
      lowerElements_eq_rebuild rest hrest, Element.rebuildList, Expr.rebuildOption, Bool.or_self,
      spillBefore_false, pure_bind, bind_assoc]

theorem lowerSegments_eq_rebuild : ∀ segments : List Segment,
    segments.any Segment.containsAttempt = false →
    lowerSegments cx frame segments = Segment.rebuildList false (lowerLiteral cx frame) segments
  | [], _ => rfl
  | .text _ :: rest, h => by
    have hrest : rest.any Segment.containsAttempt = false := by
      simpa [Segment.containsAttempt] using h
    rw [lowerSegments, lowerSegments_eq_rebuild rest hrest]
    rfl
  | .embed value _ _ :: rest, h => by
    obtain ⟨hv, hrest⟩ : value.containsAttempt = false ∧
        rest.any Segment.containsAttempt = false := by
      simpa [Segment.containsAttempt] using h
    rw [lowerSegments, hrest, lowerExpr_eq_rebuild value hv, lowerSegments_eq_rebuild rest hrest]
    rfl
end

/-- Without a `try`, an expression draws on the supply for its function literals only, in evaluation
order. -/
theorem supply_lowerExpr {e : Expr} (h : e.containsAttempt = false) (s : NameSupply) :
    (lowerExpr cx frame e s).supply =
      e.literals.foldl (fun s literal => (lowerExpr cx frame literal s).supply) s := by
  rw [lowerExpr_eq_rebuild cx frame e h, Expr.supply_rebuild]
  rfl

/-! ### Statements -/

/-- A pass emits something if its last part does. -/
theorem code_bind_ne_nil {α β : Type} {p : Pass α} {f : α → Pass β}
    (h : ∀ a s, (f a s).code ≠ []) (s : NameSupply) : ((p >>= f) s).code ≠ [] := by
  rw [Pass.code_bind]
  exact List.append_ne_nil_of_right_ne_nil _ (h _ _)

theorem code_emit_ne_nil (before : List Stmt) (stmt : Stmt) (s : NameSupply) :
    (Pass.emit (before ++ [stmt]) s).code ≠ [] :=
  List.append_ne_nil_of_right_ne_nil _ (List.cons_ne_nil _ _)

/-- Apart from a lone `try` and a `throw` that is not allowed, every statement has something in its
place. -/
theorem lowerStmt_code_ne_nil {stmt : Stmt} (hattempt : stmt.containsAttempt = false)
    (hthrow : (stmt.isThrow && !frame.isResult) = false) (s : NameSupply) :
    (lowerStmt cx frame stmt s).code ≠ [] := by
  have hlast (stmt : Stmt) (s : NameSupply) : (Pass.emit [stmt] s).code ≠ [] :=
    code_emit_ne_nil [] stmt s
  cases stmt with
  | expr value =>
    have hvalue : value.isAttempt = false := by
      have h : value.containsAttempt = false := hattempt
      rw [Expr.containsAttempt_eq, Bool.or_eq_false_iff] at h
      exact h.1
    rw [lowerStmt_expr cx frame hvalue]
    exact code_bind_ne_nil (fun _ => code_bind_ne_nil fun _ => hlast _) s
  | throw value span =>
    have hframe : frame.isResult = true := by simpa [Stmt.isThrow] using hthrow
    rw [lowerStmt, if_pos hframe]
    exact code_bind_ne_nil (fun _ => code_bind_ne_nil fun _ => hlast _) s
  | loop clause body span =>
    rw [lowerStmt]
    refine code_bind_ne_nil (fun _ => code_bind_ne_nil fun _ s => ?_) s
    split
    · exact hlast _ s
    · exact code_emit_ne_nil _ _ s
  | ret values span =>
    rw [lowerStmt]
    split <;> exact code_bind_ne_nil (fun _ => hlast _) s
  | var names ty values span | cond branch | bind names call span | block body =>
    rw [lowerStmt]
    exact code_bind_ne_nil (fun _ => hlast _) s
  | assign targets op values span | go call span | defer call span =>
    rw [lowerStmt]
    exact code_bind_ne_nil (fun _ => code_bind_ne_nil fun _ => hlast _) s
  | breakLoop span | continueLoop span => exact hlast _ s

/-- A statement without a `try` becomes a single statement, unless it throws where nothing can be
thrown. -/
theorem exists_lowerStmt_code {stmt : Stmt} (hattempt : stmt.containsAttempt = false)
    (hthrow : (stmt.isThrow && !frame.isResult) = false) (s : NameSupply) :
    ∃ single, (lowerStmt cx frame stmt s).code = [single] := by
  have hlength := length_lowerStmt_code cx frame stmt s hattempt
  have hpos := List.length_pos_iff.mpr (lowerStmt_code_ne_nil cx frame hattempt hthrow s)
  exact List.length_eq_one_iff.mp (by omega)

/-- A `throw` in a function that returns no result is reported, and nothing takes its place. -/
theorem lowerStmt_throw_eq_report {stmt : Stmt} (h : (stmt.isThrow && !frame.isResult) = true) :
    lowerStmt cx frame stmt = Pass.report (.throwOutsideResult frame.function) stmt.span := by
  cases stmt with
  | throw value span =>
    have hframe : frame.isResult = false := by simpa [Stmt.isThrow] using h
    rw [lowerStmt, hframe]
    rfl
  | _ => cases h

/-! ### Loop headers -/

/-- The code of a loop condition can be dropped: there is none. -/
theorem loopCondition_eq {test : Expr} (h : test.containsAttempt = false) (s : NameSupply) :
    loopCondition test (lowerExpr cx frame test) s = lowerExpr cx frame test s := by
  have hcode := lowerExpr_code_eq_nil cx frame test s h
  rw [loopCondition, h]
  show Step.mk _ _ [] (_ ++ Notes.empty) = _
  rw [Notes.append_empty, ← hcode]
  rfl

/-- The last statement of a post statement's code is all of it. -/
theorem lowerPost_eq {stmt : Stmt} (h : stmt.containsAttempt = false) (s : NameSupply) :
    (lowerPost cx frame (some stmt) s).value.toList = (lowerStmt cx frame stmt s).code := by
  have hlength := length_lowerStmt_code cx frame stmt s h
  rw [lowerPost, h]
  show (lowerStmt cx frame stmt s).code.getLast?.toList = _
  rcases hcode : (lowerStmt cx frame stmt s).code with _ | ⟨single, _ | ⟨next, rest⟩⟩
  · rfl
  · rfl
  · simp [hcode] at hlength

/-- **Code without a `try` is not hoisted.** In every frame:

1. lowering an expression without a `try` emits nothing, takes names for its function literals only,
   one literal after another, and gives the expression with only those literals rewritten;
2. a statement without a `try` is replaced by exactly one statement, unless it is a `throw` in a
   function that returns no result, which is reported and replaced by none;
3. so the code that the condition of a loop drops is empty, and
4. the one statement that stays of a post statement is all of its code. -/
theorem lowerExpr_unhoisted (cx : Context) (frame : Frame) :
    (∀ e : Expr, e.containsAttempt = false →
      lowerExpr cx frame e = e.rebuild false (lowerLiteral cx frame) ∧
      ∀ supply, (lowerExpr cx frame e supply).code = [] ∧
        (lowerExpr cx frame e supply).supply =
          e.literals.foldl (fun s literal => (lowerExpr cx frame literal s).supply) supply) ∧
    (∀ stmt : Stmt, stmt.containsAttempt = false → ∀ supply,
      if stmt.isThrow && !frame.isResult then
        (lowerStmt cx frame stmt supply).code = [] ∧
          (lowerStmt cx frame stmt supply).notes.faults =
            [⟨.throwOutsideResult frame.function, stmt.span⟩]
      else ∃ single, (lowerStmt cx frame stmt supply).code = [single]) ∧
    (∀ test : Expr, test.containsAttempt = false → ∀ supply,
      loopCondition test (lowerExpr cx frame test) supply = lowerExpr cx frame test supply) ∧
    ∀ post : Stmt, post.containsAttempt = false → ∀ supply,
      (lowerPost cx frame (some post) supply).value.toList =
        (lowerStmt cx frame post supply).code := by
  refine ⟨fun e he => ?_, fun stmt hstmt supply => ?_, fun test htest => ?_, fun post hpost => ?_⟩
  · refine ⟨lowerExpr_eq_rebuild cx frame e he, fun supply => ?_⟩
    exact ⟨lowerExpr_code_eq_nil cx frame e supply he, supply_lowerExpr cx frame he supply⟩
  · split
    · rename_i hthrow
      rw [lowerStmt_throw_eq_report cx frame hthrow]
      exact ⟨rfl, rfl⟩
    · rename_i hthrow
      exact exists_lowerStmt_code cx frame hstmt (by simpa using hthrow) supply
  · exact loopCondition_eq cx frame htest
  · exact lowerPost_eq cx frame hpost

/-- What is known in the body of `poll`. -/
def pollContext : Context := { Scope.ofFunction pollTable poll with settings := {} }

/-- The frame of the body of `poll`. -/
def pollFrame : Frame := .ofShape pollTable "poll" (resultSignature "poll" [.named "int"]).returns

/-- `retry(f)` for a function literal `f` that returns `try load()`. -/
def retried : Expr :=
  .apply (.name "retry")
    [.func [] (some (.result (.named "int")))
      (.inserted [.ret [attemptOf "load"] .nowhere]) .nowhere]

/-- As the condition of a loop, `retried` takes two names, and both for its function literal. -/
theorem lowerExpr_unhoisted_retried :
    retried.containsAttempt = false ∧
      (loopCondition retried (lowerExpr pollContext pollFrame retried)
        (.avoiding "gx" [])).supply.used = ["gxErr0", "gxVal0"] ∧
      ∀ supply, (lowerExpr pollContext pollFrame retried supply).code = [] ∧
        (lowerExpr pollContext pollFrame retried supply).supply = retried.literals.foldl
          (fun s literal => (lowerExpr pollContext pollFrame literal s).supply) supply := by
  have hfree : retried.containsAttempt = false := rfl
  obtain ⟨hexpr, -, hcondition, -⟩ := lowerExpr_unhoisted pollContext pollFrame
  refine ⟨hfree, ?_, (hexpr retried hfree).2⟩
  rw [hcondition retried hfree]
  rfl

end Propagation

end Desugar
