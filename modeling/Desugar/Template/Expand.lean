import Desugar.Noted
import Desugar.Settings
import Desugar.Template.Syntax
import Desugar.Tree.Rebuild

/-!
# Expansion of templates

A template `"You have \(count:d) apples"` becomes the call `fmt.Sprintf("You have %d apples",
count)` of a formatting function. Its texts make up the format, with every percent sign doubled;
each embed leaves a percent sign and its verb in the format and adds its expression to the
arguments.

* `Template.expand` expands one template whose embeds are expanded already.
* `expandTemplates` is the pass over a unit, which works from the innermost template outwards.
-/

namespace Desugar

namespace Template

/-- Text as it stands in a format. -/
def escapePercent : List Char → List Char
  | [] => []
  | '%' :: cs => '%' :: '%' :: escapePercent cs
  | c :: cs => c :: escapePercent cs

/-- The format of a template and the expressions that fill it in. An embed whose verb is outside
the grammar is a fault. -/
def format : List Segment → Except Fault (List Char × List Expr)
  | [] => .ok ([], [])
  | .text value :: rest => do
    let (text, args) ← format rest
    .ok (escapePercent value.toList ++ text, args)
  | .embed value verb? span :: rest => do
    let verb := verb?.getD Verb.generic
    if Verb.isVerb verb then
      let (text, args) ← format rest
      .ok ('%' :: verb.toList ++ text, value :: args)
    else .error ⟨.unknownVerb verb, span⟩

/-- The call that a template stands for. It has the span of the template. -/
def expand (function : String) (segments : List Segment) (span : Span) : Except Fault Expr := do
  let (text, args) ← format segments
  .ok (.call (Path.reference function) (.lit (.string (String.ofList text)) span :: args) span)

end Template

/-- Expands a node that is a template and leaves any other alone. A template that cannot be
expanded is replaced by nil. -/
def Expr.expandTemplate (function : String) : Expr → Noted Expr
  | .template segments span =>
    match Template.expand function segments span with
    | .ok expanded => do
      Noted.require (Path.package? function).toList
      pure expanded
    | .error fault => do
      Noted.report [fault]
      pure Expr.nil
  | e => pure e

/-- Expands the templates of an item. -/
def Item.expandTemplates (function : String) : Item → Noted Item
  | .func decl => do
    let body ← decl.body.rebuild true (Expr.expandTemplate function)
    pure (.func { decl with body })
  | .const decl => do
    let value ← decl.value.rebuild true (Expr.expandTemplate function)
    pure (.const { decl with value })
  | item => pure item

/-- Expands every template of a unit. -/
def expandTemplates (settings : Settings) (program : Program) : Noted Program := do
  let items ← program.items.mapM (Item.expandTemplates settings.formatFunction)
  pure { program with items }

end Desugar
