import Desugar.Tree.Visit

/-!
# What occurs outside function literals

`Expr.containsAttempt` and `Expr.isPure` look through the walk that stays outside function
literals. Both are computed here from the direct parts of a node: it contains a `try` if it is one
or a part contains one, and it is pure if it runs nothing itself and its parts are pure.
-/

namespace Desugar

/-- The expression embedded by a part of a template. -/
def Segment.embedded? : Segment → Option Expr
  | .text _ => none
  | .embed value _ _ => some value

@[simp] theorem Segment.embedded?_text (value : String) : (text value).embedded? = none := rfl
@[simp] theorem Segment.embedded?_embed (value : Expr) (verb : Option String) (span : Span) :
    (embed value verb span).embedded? = some value := rfl

/-- The key and the value of an element. -/
def Element.parts (element : Element) : List Expr := element.key.toList ++ [element.value]

/-- The operands of an expression, from left to right. A function literal has none. -/
def Expr.parts : Expr → List Expr
  | .ident _ _ | .lit _ _ | .ofType _ _ | .func _ _ _ _ => []
  | .call callee args _ => callee :: args
  | .template segments _ => segments.filterMap Segment.embedded?
  | .attempt operand _ | .unary _ operand _ => [operand]
  | .binary _ left right _ => [left, right]
  | .selector base _ _ => [base]
  | .index base key _ => [base, key]
  | .composite _ elements _ => elements.flatMap Element.parts

section Visit

variable (descend : Expr → Bool)

/-- Expressions are visited one after another. -/
theorem Expr.visitList_eq (es : List Expr) :
    Expr.visitList descend es = es.flatMap (Expr.visit descend) := by
  induction es with
  | nil => rfl
  | cons e rest ih => rw [Expr.visitList, ih, List.flatMap_cons]

theorem Expr.visitOption_eq (e : Option Expr) :
    Expr.visitOption descend e = e.toList.flatMap (Expr.visit descend) := by
  cases e <;> simp [Expr.visitOption]

/-- The embeds of a template are visited one after another. -/
theorem Segment.visitList_eq (segments : List Segment) :
    Segment.visitList descend segments =
      (segments.filterMap Segment.embedded?).flatMap (Expr.visit descend) := by
  induction segments with
  | nil => rfl
  | cons segment rest ih => cases segment <;> simp [Segment.visitList, List.filterMap_cons, ih]

/-- Keys and values are visited one after another. -/
theorem Element.visitList_eq (elements : List Element) :
    Element.visitList descend elements =
      (elements.flatMap Element.parts).flatMap (Expr.visit descend) := by
  induction elements with
  | nil => rfl
  | cons element rest ih =>
    obtain ⟨key, value⟩ := element
    simp [Element.visitList, Expr.visitOption_eq, Element.parts, List.flatMap_append, ih]

end Visit

section Walk

variable (p : Expr → Bool)

/-- The expressions of an operand list, outside function literals, that satisfy a predicate. -/
def anyOutside (es : List Expr) : Bool := es.any fun e => (e.visit Expr.outsideFuncs).any p

theorem any_visitList (es : List Expr) :
    (Expr.visitList Expr.outsideFuncs es).any p = anyOutside p es := by
  rw [Expr.visitList_eq, List.any_flatMap, anyOutside]

theorem any_visitSegments (segments : List Segment) :
    (Segment.visitList Expr.outsideFuncs segments).any p =
      anyOutside p (segments.filterMap Segment.embedded?) := by
  rw [Segment.visitList_eq, List.any_flatMap, anyOutside]

theorem any_visitElements (elements : List Element) :
    (Element.visitList Expr.outsideFuncs elements).any p =
      anyOutside p (elements.flatMap Element.parts) := by
  rw [Element.visitList_eq, List.any_flatMap, anyOutside]

/-- An expression that satisfies a predicate is the node itself or occurs in an operand. -/
theorem any_visit_eq (e : Expr) :
    (e.visit Expr.outsideFuncs).any p = (p e || anyOutside p e.parts) := by
  cases e <;>
    simp [Expr.visit, visited, Expr.outsideFuncs, Expr.isFunc, Expr.parts, any_visitList,
      any_visitSegments, any_visitElements, anyOutside]

end Walk

namespace Expr

/-- A `try` is the expression itself or in one of its operands. -/
theorem containsAttempt_eq (e : Expr) :
    e.containsAttempt = (e.isAttempt || e.parts.any containsAttempt) :=
  any_visit_eq isAttempt e

/-- An expression is pure if it runs nothing itself and its operands are pure. -/
theorem isPure_eq (e : Expr) : e.isPure = (!e.isEffect && e.parts.all isPure) := by
  have hall : ∀ es : List Expr, es.all isPure = !anyOutside isEffect es := by
    intro es
    induction es with
    | nil => rfl
    | cons e rest ih =>
      show (e.isPure && rest.all isPure) = !(_ || anyOutside isEffect rest)
      rw [ih, Bool.not_or]
      rfl
  rw [isPure, any_visit_eq, Bool.not_or, hall]

end Expr

/-- A `try` in an element is one in a key or a value. -/
theorem any_containsAttempt_elements (elements : List Element) :
    (elements.flatMap Element.parts).any Expr.containsAttempt =
      elements.any Element.containsAttempt := by
  induction elements with
  | nil => rfl
  | cons element rest ih =>
    obtain ⟨key, value⟩ := element
    cases key <;> simp [Element.parts, Element.containsAttempt, ← ih, Bool.or_assoc]

/-- A `try` in a template is one in an embed. -/
theorem any_containsAttempt_segments (segments : List Segment) :
    (segments.filterMap Segment.embedded?).any Expr.containsAttempt =
      segments.any Segment.containsAttempt := by
  induction segments with
  | nil => rfl
  | cons segment rest ih =>
    cases segment <;> simp [Segment.containsAttempt, ← ih]

end Desugar
