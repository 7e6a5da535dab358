import Desugar.Proofs.Emit.Exposed
import Desugar.Proofs.Emit.Types

/-!
# Literals exposed in headers

What can stand in the header of a conditional or a loop, and where it shows a composite literal with
a type name outside brackets. Writing code does nothing against it: the header shows such a literal
exactly if the tree does, so `if p == P{} {` is written.

- `Clause.exposes` looks for such a literal in the header of a loop.
- `header_exposes` says that the written headers of conditionals, of the branches that follow them
  and of loops expose a literal exactly if the trees do.
-/

namespace Desugar

open Lexical (Alphabet)

/-- In the header of a loop, a composite literal of the statement is written outside brackets. -/
def Stmt.exposes : Stmt → Bool
  | .var _ _ values _ | .ret values _ => values.any (Expr.exposes 0)
  | .assign targets _ values _ => targets.any (Expr.exposes 0) || values.any (Expr.exposes 0)
  | .expr value | .go value _ | .defer value _ => value.exposes 0
  | _ => false

/-- A composite literal is written outside brackets in the header of a loop. -/
def Clause.exposes : Clause → Bool
  | .infinite => false
  | .condition test => test.exposes 0
  | .three first test post =>
    first.any Stmt.exposes || test.any (Expr.exposes 0) || post.any Stmt.exposes
  | .range _ _ _ source => source.exposes 0

/-- A composite literal with a type name stands outside brackets in the header. -/
def exposesLiteral (A : Alphabet) (header : String) : Bool := Spot.exposes A {} header.toList

section Headers

variable {A : Alphabet} {text : String} {flag : Bool}

/-- A header begins with an operand, so what is known of operands applies to it. -/
theorem OperandExposes.exposesLiteral (h : OperandExposes A text flag) :
    exposesLiteral A text = flag := h.exposes_eq {} rfl rfl

/-- A header that is set off from its keyword by a blank. -/
theorem OperandExposes.exposesLiteral_blank (h : OperandExposes A text flag) :
    Desugar.exposesLiteral A (" " ++ text) = flag := by
  have hspace : (" " ++ text).toList = ' ' :: text.toList := by simp
  have htext : (Spot.next {} ' ').exposes A text.toList = flag := h.exposes_eq _ rfl rfl
  rw [Desugar.exposesLiteral, hspace, Spot.exposes, htext]
  rfl

namespace Emit

/-! ## Statements in headers -/

/-- Each of the written expressions exposes what its tree says. -/
theorem exposes_exprs {indent : Nat} {es : List Expr} {texts : List String}
    (h : exprs indent es = .ok texts) (hnames : Within (Node.isLegible A) (Expr.nodesList es)) :
    List.Forall₂ (OperandExposes A) texts (es.map (Expr.exposes 0)) := by
  induction es generalizing texts with
  | nil =>
    cases h
    exact .nil
  | cons e es ih =>
    obtain ⟨text, htext, h⟩ := bind_eq_ok h
    obtain ⟨texts, htexts, h⟩ := bind_eq_ok h
    obtain ⟨he, hes⟩ := within_append.mp hnames
    cases h
    exact .cons (exposes_expr htext he) (ih htexts hes)

/-- A list of values exposes what one of them exposes. -/
theorem exposes_values {indent : Nat} {es : List Expr} {texts : List String}
    (h : exprs indent es = .ok texts) (hnames : Within (Node.isLegible A) (Expr.nodesList es)) :
    OperandExposes A (", ".intercalate texts) (es.any (Expr.exposes 0)) := by
  simpa only [List.any_map, Function.id_comp] using operandExposes_list (exposes_exprs h hnames)

/-- No values are written for none. -/
theorem eq_nil_of_exprs {indent : Nat} {es : List Expr} {texts : List String}
    (h : exprs indent es = .ok texts) (htexts : texts.isEmpty = true) : es = [] := by
  cases es with
  | nil => rfl
  | cons e es =>
    obtain ⟨text, -, h⟩ := bind_eq_ok h
    obtain ⟨rest, -, h⟩ := bind_eq_ok h
    cases h
    cases htexts

/-- A statement in the header of a loop. -/
theorem exposes_inline {indent : Nat} : ∀ {s : Stmt} {text : String},
    stmt (.header indent) s = .ok text → Within (Node.isLegible A) s.nodes →
      OperandExposes A text s.exposes
  | .var names t values span, _, h, hnames => by
    obtain ⟨typed, texts, htyped, htexts, rfl⟩ := stmt_var_eq_ok h
    obtain ⟨hself, hvalues⟩ := within_cons.mp hnames
    obtain ⟨hids, ht⟩ := Bool.and_eq_true_iff.mp hself
    have hvar : Flat "var " := .fixed (by decide)
    have htype : Exposes A typed false := by
      rcases htyped with rfl | ⟨written, inner, rfl, hinner, rfl⟩
      · exact (Flat.fixed (by decide)).exposes
      · exact (typeText_tyText (tyText_of_ty hinner) ht).exposes_behind .blank
          fun _ => apart_cons rfl
    have hequals : Separator " = " := ⟨.fixed (by decide), fun _ => rfl⟩
    have hinitial : Exposes A (if texts.isEmpty then "" else " = " ++ ", ".intercalate texts)
        (values.any (Expr.exposes 0)) := by
      split
      · next hempty =>
        rw [eq_nil_of_exprs htexts hempty]
        exact (Flat.fixed (by decide)).exposes
      · exact (exposes_values htexts hvalues).after_separator hequals
    exact (((hvar.append (flat_names hids)).exposes.append htype).append hinitial).operand
  | .assign targets op values _, _, h, hnames => by
    obtain ⟨left, hleft, h⟩ := bind_eq_ok h
    obtain ⟨right, hright, h⟩ := bind_eq_ok h
    obtain ⟨-, htargets, hvalues⟩ := within_pair.mp hnames
    cases h
    have hop : Separator (" " ++ assignSymbol op ++ " ") := by
      cases op with
      | update op => cases op <;> exact ⟨.fixed (by decide), fun _ => rfl⟩
      | _ => exact ⟨.fixed (by decide), fun _ => rfl⟩
    simpa only [String.append_assoc, Position.place, Stmt.exposes] using
      (exposes_values hleft htargets).append ((exposes_values hright hvalues).after_separator hop)
  | .expr value, _, h, hnames => by
    obtain ⟨text, htext, h⟩ := bind_eq_ok h
    cases h
    exact exposes_expr htext (within_cons.mp hnames).2
  | .ret values _, _, h, hnames => by
    obtain ⟨texts, htexts, h⟩ := bind_eq_ok h
    have hvalues := exposes_values htexts (within_cons.mp hnames).2
    have hreturn : Separator "return " := ⟨.fixed (by decide), fun _ => rfl⟩
    cases h
    simp only [Position.place]
    split
    · next hempty =>
      rw [eq_nil_of_exprs htexts hempty]
      exact (Flat.fixed (by decide)).exposes.operand
    · exact (hvalues.after_separator hreturn).operand
  | .go call _, _, h, hnames => by
    obtain ⟨text, htext, h⟩ := bind_eq_ok h
    cases h
    have hgo : Separator "go " := ⟨.fixed (by decide), fun _ => rfl⟩
    exact ((exposes_expr htext (within_cons.mp hnames).2).after_separator hgo).operand
  | .defer call _, _, h, hnames => by
    obtain ⟨text, htext, h⟩ := bind_eq_ok h
    cases h
    have hdefer : Separator "defer " := ⟨.fixed (by decide), fun _ => rfl⟩
    exact ((exposes_expr htext (within_cons.mp hnames).2).after_separator hdefer).operand
  | .breakLoop _, _, h, _ => by
    cases h
    have hbreak : Flat "break" := .fixed (by decide)
    exact hbreak.exposes.operand
  | .continueLoop _, _, h, _ => by
    cases h
    have hcontinue : Flat "continue" := .fixed (by decide)
    exact hcontinue.exposes.operand
  | .cond ⟨_, _, _, _⟩, _, h, _ => by cases h
  | .loop _ _ _, _, h, _ => by cases h
  | .block ⟨_, _⟩, _, h, _ => by cases h
  | .throw _ _, _, h, _ => by cases h
  | .bind _ _ _, _, h, _ => by cases h

/-! ## Headers -/

/-- The first statement of a loop header. -/
theorem exposes_first {indent : Nat} {s : Option Stmt} (h : headerText indent "" s = .ok text)
    (hnames : Within (Node.isLegible A) (Stmt.nodesOption s)) :
    OperandExposes A text (s.any Stmt.exposes) := by
  cases s with
  | none =>
    cases h
    exact (Flat.fixed (by decide)).exposes.operand
  | some s =>
    obtain ⟨written, hwritten, h⟩ := bind_eq_ok h
    cases h
    rw [String.empty_append]
    exact exposes_inline hwritten hnames

theorem separator_semicolon : Separator "; " := ⟨.fixed (by decide), fun _ => rfl⟩

/-- The condition between the semicolons of a loop header. -/
theorem exposes_conditionText {indent : Nat} {condition : Option Expr}
    (h : conditionText indent condition = .ok text)
    (hnames : Within (Node.isLegible A) (Expr.nodesOption condition)) :
    Exposes A (";" ++ text) (condition.any (Expr.exposes 0)) := by
  cases condition with
  | none =>
    cases h
    exact (Flat.fixed (by decide)).exposes
  | some test =>
    obtain ⟨written, hwritten, h⟩ := bind_eq_ok h
    cases h
    rw [← String.append_assoc]
    exact (exposes_expr hwritten hnames).after_separator separator_semicolon

/-- The last statement of a loop header. -/
theorem exposes_post {indent : Nat} {s : Option Stmt} (h : headerText indent " " s = .ok text)
    (hnames : Within (Node.isLegible A) (Stmt.nodesOption s)) :
    Exposes A (";" ++ text) (s.any Stmt.exposes) := by
  cases s with
  | none =>
    cases h
    exact (Flat.fixed (by decide)).exposes
  | some s =>
    obtain ⟨written, hwritten, h⟩ := bind_eq_ok h
    cases h
    rw [← String.append_assoc]
    exact (exposes_inline hwritten hnames).after_separator separator_semicolon

/-- The header of a loop exposes a literal exactly if the tree does. -/
theorem exposes_clauseText {indent : Nat} {clause : Clause} {body : Block} {span : Span}
    (h : clauseText indent clause = .ok text)
    (hself : Node.isLegible A (.stmt (.loop clause body span)) = true)
    (hnames : Within (Node.isLegible A) clause.nodes) :
    ∃ header, text = "for" ++ header ∧ exposesLiteral A header = clause.exposes := by
  have hfor : "for " = "for" ++ " " := rfl
  cases clause with
  | infinite =>
    cases h
    exact ⟨"", rfl, rfl⟩
  | condition test =>
    obtain ⟨written, hwritten, h⟩ := bind_eq_ok h
    cases h
    exact ⟨" " ++ written, by rw [hfor, String.append_assoc],
      (exposes_expr hwritten hnames).exposesLiteral_blank⟩
  | three first condition post =>
    obtain ⟨start, hstart, h⟩ := bind_eq_ok h
    obtain ⟨test, htest, h⟩ := bind_eq_ok h
    obtain ⟨step, hstep, h⟩ := bind_eq_ok h
    obtain ⟨hfront, hpost⟩ := within_append.mp hnames
    obtain ⟨hfirst, hcondition⟩ := within_append.mp hfront
    cases h
    have hparts := ((exposes_first hstart hfirst).append
      (exposes_conditionText htest hcondition)).append (exposes_post hstep hpost)
    refine ⟨_, ?_, hparts.exposesLiteral_blank⟩
    simp only [hfor, String.append_assoc]
  | range key value define source =>
    obtain ⟨written, hwritten, h⟩ := bind_eq_ok h
    obtain ⟨hkey, hvalue⟩ := Bool.and_eq_true_iff.mp hself
    obtain ⟨lead, hlead, heq⟩ := rangeText_eq hkey hvalue define written
    have hrange : Separator "range " := ⟨.fixed (by decide), fun _ => rfl⟩
    have hsource := (exposes_expr hwritten hnames).after_separator hrange
    have htext := (hlead.exposes.append hsource).operand
    cases h
    refine ⟨_, ?_, htext.exposesLiteral_blank⟩
    rw [heq]
    simp only [hfor, String.append_assoc]

end Emit

end Headers

open Emit in
/-- The header of every conditional, of every branch that follows one and of every loop that is
written shows a composite literal with a type name outside brackets exactly if its tree does. -/
theorem header_exposes (A : Alphabet) (indent : Nat) (text : String) :
    (∀ condition thenBlock otherwise span, Within (Node.isLegible A) condition.nodes →
      stmt (.line indent) (.cond ⟨condition, thenBlock, otherwise, span⟩) = .ok text →
        ∃ header rest, expr 0 indent condition = .ok header ∧
          text = tabs indent ++ "if " ++ header ++ " " ++ opening ++ rest ∧
          exposesLiteral A header = condition.exposes 0) ∧
    (∀ condition thenBlock otherwise span, Within (Node.isLegible A) condition.nodes →
      elseText indent (.elseIf ⟨condition, thenBlock, otherwise, span⟩) = .ok text →
        ∃ header rest, expr 0 indent condition = .ok header ∧
          text = " else if " ++ header ++ " " ++ opening ++ rest ∧
          exposesLiteral A header = condition.exposes 0) ∧
    (∀ clause body span, Node.isLegible A (.stmt (.loop clause body span)) = true →
      Within (Node.isLegible A) clause.nodes →
      stmt (.line indent) (.loop clause body span) = .ok text →
        ∃ header rest, clauseText indent clause = .ok ("for" ++ header) ∧
          text = tabs indent ++ "for" ++ header ++ " " ++ opening ++ rest ∧
          exposesLiteral A header = clause.exposes) := by
  refine ⟨fun condition thenBlock otherwise span hnames h => ?_,
    fun condition thenBlock otherwise span hnames h => ?_,
    fun clause body span hself hnames h => ?_⟩
  · obtain ⟨header, hheader, h⟩ := bind_eq_ok h
    obtain ⟨body, -, h⟩ := bind_eq_ok h
    obtain ⟨rest, -, h⟩ := bind_eq_ok h
    cases h
    refine ⟨header, body ++ tabs indent ++ closing ++ rest ++ "\n", hheader, ?_,
      (exposes_expr hheader hnames).exposesLiteral⟩
    simp only [String.append_assoc]
  · obtain ⟨header, hheader, h⟩ := bind_eq_ok h
    obtain ⟨body, -, h⟩ := bind_eq_ok h
    obtain ⟨rest, -, h⟩ := bind_eq_ok h
    cases h
    refine ⟨header, body ++ tabs indent ++ closing ++ rest, hheader, ?_,
      (exposes_expr hheader hnames).exposesLiteral⟩
    simp only [String.append_assoc]
  · obtain ⟨written, hwritten, h⟩ := bind_eq_ok h
    obtain ⟨lines, -, h⟩ := bind_eq_ok h
    obtain ⟨header, rfl, hexposes⟩ := exposes_clauseText hwritten hself hnames
    cases h
    refine ⟨header, lines ++ tabs indent ++ closing ++ "\n", hwritten, ?_, hexposes⟩
    simp only [String.append_assoc]

/-- `P{}` -/
def emptyPoint : Expr := .composite (.named "P") [] {}

/-- `(P{}.x + 1) * 2 > reach(P{})` -/
def farGuard : Expr :=
  .binary .gt
    (.binary .mul
      (.binary .add (.selector emptyPoint "x" {}) (.lit (.int 1) {}) {}) (.lit (.int 2) {}) {})
    (.call (.ident "reach" {}) [emptyPoint] {}) {}

/-- `q == &P{}` -/
def samePointer : Expr :=
  .binary .eq (.ident "q" {}) (.unary .addressOf emptyPoint {}) {}

/-- `for p := *(*P{}.next); ; next(func() P {...})` -/
def walkClause : Clause :=
  .three
    (some (.assign [.ident "p" {}] .define
      [.unary .deref (.unary .deref (.selector emptyPoint "next" {}) {}) {}] {}))
    none
    (some (.expr (.call (.ident "next" {})
      [.func [] (some (.named "P")) { stmts := [.ret [emptyPoint] {}] } {}] {})))

open Emit in
/-- Brackets hide the literals of the first header and of the last, and not that of the second. -/
theorem header_exposes_walk :
    (Within (Node.isLegible asciiAlphabet) farGuard.nodes ∧
      (∃ text, stmt (.line 0) (.cond ⟨farGuard, {stmts := []}, .none, {}⟩) = .ok text) ∧
      ∃ header, expr 0 0 farGuard = .ok header ∧ exposesLiteral asciiAlphabet header = false) ∧
    (Within (Node.isLegible asciiAlphabet) samePointer.nodes ∧
      (∃ text, elseText 0 (.elseIf ⟨samePointer, {stmts := []}, .none, {}⟩) = .ok text) ∧
      ∃ header, expr 0 0 samePointer = .ok header ∧
        exposesLiteral asciiAlphabet header = true) ∧
    Within (Node.isLegible asciiAlphabet) walkClause.nodes ∧
      (∃ text, stmt (.line 0) (.loop walkClause {stmts := []} {}) = .ok text) ∧
      ∃ header, clauseText 0 walkClause = .ok ("for" ++ header) ∧
        exposesLiteral asciiAlphabet header = false := by
  have hfar : Within (Node.isLegible asciiAlphabet) farGuard.nodes :=
    List.all_eq_true.mp (by decide +kernel)
  have hsame : Within (Node.isLegible asciiAlphabet) samePointer.nodes :=
    List.all_eq_true.mp (by decide +kernel)
  have hwalk : Within (Node.isLegible asciiAlphabet) walkClause.nodes :=
    List.all_eq_true.mp (by decide +kernel)
  obtain ⟨header, -, hheader, -, hexposes⟩ :=
    (header_exposes asciiAlphabet 0 _).1 farGuard {stmts := []} .none {} hfar rfl
  obtain ⟨header', -, hheader', -, hexposes'⟩ :=
    (header_exposes asciiAlphabet 0 _).2.1 samePointer {stmts := []} .none {} hsame rfl
  obtain ⟨clause, -, hclause, -, hloop⟩ :=
    (header_exposes asciiAlphabet 0 _).2.2 walkClause {stmts := []} {} rfl hwalk rfl
  exact ⟨⟨hfar, ⟨_, rfl⟩, header, hheader, hexposes⟩,
    ⟨hsame, ⟨_, rfl⟩, header', hheader', hexposes'⟩, hwalk, ⟨_, rfl⟩, clause, hclause, hloop⟩

/-- `p == P{}` -/
def isOrigin : Expr := .binary .eq (.ident "p" {}) emptyPoint {}

open Emit in
/-- A comparison with a literal is written without parentheses in the header of a conditional. -/
theorem header_exposes_origin :
    stmt (.line 0) (.cond ⟨isOrigin, {stmts := []}, .none, {}⟩) =
        .ok "if p == P\x7b\x7d \x7b\n\x7d\n" ∧
      exposesLiteral asciiAlphabet "p == P\x7b\x7d" = true := by
  exact ⟨rfl, by decide +kernel⟩

end Desugar
