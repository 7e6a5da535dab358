import Desugar.Fault

/-!
# The text of types

Base types in the notation of the base language. A type that the base language does not have is
a fault.
-/

namespace Desugar.Emit

/-- The text of a type, or the part of it that has none. -/
def tyText : Ty → Except Cause String
  | .named name => .ok name
  | .array element => do
    let element ← tyText element
    .ok ("[]" ++ element)
  | .map key value => do
    let key ← tyText key
    let value ← tyText value
    .ok ("map[" ++ key ++ "]" ++ value)
  | .pointer inner true => do
    let inner ← tyText inner
    .ok ("*" ++ inner)
  | .channel inner direction => do
    let inner ← tyText inner
    match direction with
    | .both => .ok ("chan " ++ inner)
    | .send => .ok ("chan<- " ++ inner)
    | .receive => .ok ("<-chan " ++ inner)
  | t => .error (.emittedType t)

/-- The text of a type at a place. -/
def ty (t : Ty) (span : Span) : Except Fault String :=
  (tyText t).mapError fun cause => ⟨cause, span⟩

/-- The texts of the values of a return clause. -/
def slotTexts (span : Span) : List Ty → Except Fault (List String)
  | [] => .ok []
  | t :: ts => do
    let t ← ty t span
    let ts ← slotTexts span ts
    .ok (t :: ts)

/-- The text of a return clause, with a space before it. -/
def returnClause (span : Span) : Option Ty → Except Fault String
  | none | some (.tuple []) => .ok ""
  | some (.tuple [t]) => do
    let t ← ty t span
    .ok (" " ++ t)
  | some (.tuple ts) => do
    let ts ← slotTexts span ts
    .ok (" (" ++ ", ".intercalate ts ++ ")")
  | some t => do
    let t ← ty t span
    .ok (" " ++ t)

end Desugar.Emit
