import Desugar.Proofs.Tree.Nodes
import Desugar.Proofs.Tree.Occurrence
import Desugar.Template.Expand

/-!
# The format of a template

When a template has a format, and what it consists of, read off from its first segment. The
arguments of the format are the embedded expressions (`args_format`).
-/

namespace Desugar.Template

variable {rest : List Segment} {text : List Char} {args : List Expr}

/-- A text is formatted with its percent signs doubled. -/
theorem format_text_eq_ok {value : String} :
    format (.text value :: rest) = .ok (text, args) ↔ ∃ text',
      format rest = .ok (text', args) ∧ text = escapePercent value.toList ++ text' := by
  cases hrest : format rest with
  | error fault => simp [format, hrest, bind, Except.bind]
  | ok p =>
    simp only [format, hrest, bind, Except.bind, Except.ok.injEq, Prod.ext_iff]
    grind

/-- An embed is formatted as a percent sign and its verb, or the generic one. -/
theorem format_embed_eq_ok {value : Expr} {verb : Option String} {span : Span} :
    format (.embed value verb span :: rest) = .ok (text, args) ↔
      Verb.isVerb (verb.getD Verb.generic) = true ∧ ∃ text' args',
        format rest = .ok (text', args') ∧ args = value :: args' ∧
          text = '%' :: (verb.getD Verb.generic).toList ++ text' := by
  by_cases hverb : Verb.isVerb (verb.getD Verb.generic)
  · cases hrest : format rest with
    | error fault => simp [format, hverb, hrest, bind, Except.bind]
    | ok p =>
      simp only [format, hverb, hrest, bind, Except.bind, Except.ok.injEq, Prod.ext_iff, if_true]
      grind
  · simp [format, hverb]

/-- The arguments of a format are the embedded expressions. -/
theorem args_format :
    ∀ {segments : List Segment} {text : List Char} {args : List Expr},
      format segments = .ok (text, args) → args = segments.filterMap Segment.embedded?
  | [], _, _, h => by
    cases h
    rfl
  | .text _ :: _, _, _, h => by
    obtain ⟨text', hrest, -⟩ := format_text_eq_ok.mp h
    rw [args_format hrest]
    rfl
  | .embed value _ _ :: _, _, _, h => by
    obtain ⟨-, text', args', hrest, rfl, -⟩ := format_embed_eq_ok.mp h
    rw [args_format hrest]
    rfl

/-- The arguments of a format are the embedded expressions, in order. -/
theorem nodesList_format {segments : List Segment} (h : format segments = .ok (text, args)) :
    Expr.nodesList args = Segment.nodesList segments := by
  rw [args_format h]
  clear h
  induction segments with
  | nil => rfl
  | cons segment rest ih =>
    cases segment with
    | text value => exact ih
    | embed value verb span => exact congrArg (value.nodes ++ ·) ih

end Desugar.Template
