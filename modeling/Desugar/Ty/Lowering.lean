import Desugar.Fault
import Desugar.Settings

/-!
# Lowering of types

`Ty.lower` replaces the extended constructors of a type by base types: an option becomes a
pointer, unless its inner type has nil to spare, and a pointer forgets that it is never nil. A
result or a tuple is no type of a value and is rejected; both only shape return clauses, for
which `ReturnShape.ofClause` splits off the error and the positional values.

* `Ty.lower` and `Ty.facts` are the type and what else is known of it.
* `ReturnShape` is a lowered return clause.
* `Ty.zero` is the zero value of a lowered type.
-/

namespace Desugar

namespace Ty

/-- The base type of a type in value position. -/
def lower (policy : OptionPolicy) : Ty → Except Cause Ty
  | named name => .ok (named name)
  | array element => do
    let element ← element.lower policy
    .ok (array element)
  | map key value => do
    let key ← key.lower policy
    let value ← value.lower policy
    .ok (map key value)
  | option inner => do
    let lowered ← inner.lower policy
    -- A nil of the inner type stands for absence, unless it already does so for an inner option.
    if policy = .nilSentinel ∧ !inner.isOption ∧ lowered.isReferenceLike then .ok lowered
    else .ok (pointer lowered true)
  | result inner => .error (.resultAsValue inner)
  | pointer inner _ => do
    let inner ← inner.lower policy
    .ok (pointer inner true)
  | channel inner direction => do
    let inner ← inner.lower policy
    .ok (channel inner direction)
  | tuple slots => .error (.tupleAsValue (tuple slots))

/-- What is known of a type besides its lowered form. -/
structure Facts where
  isOption : Bool := false
  isResult : Bool := false
  /-- Whether nil is a value, for options and pointers. -/
  nillable? : Option Bool := none
  /-- The direction of a channel. -/
  direction? : Option Direction := none
  /-- The lowered type of what the type holds. -/
  element? : Option Ty := none

/-- The type of what a type holds: elements, values of a map, what an option or pointer leads
to, what a channel carries. -/
def content? : Ty → Option Ty
  | array inner | map _ inner | option inner | pointer inner _ | channel inner _ => some inner
  | named _ | result _ | tuple _ => none

/-- What is known of a type in value position. -/
def facts (policy : OptionPolicy) (t : Ty) : Facts where
  isOption := t.isOption
  nillable? := match t with
    | option _ => some true
    | pointer _ nillable => some nillable
    | _ => none
  direction? := match t with
    | channel _ direction => some direction
    | _ => none
  element? := t.content?.bind fun inner => (inner.lower policy).toOption

/-- Lowers a list of types from left to right; the first that fails decides. -/
def lowerList (policy : OptionPolicy) : List Ty → Except Cause (List Ty)
  | [] => .ok []
  | t :: ts => do
    let t ← t.lower policy
    let ts ← lowerList policy ts
    .ok (t :: ts)

/-- The return clause with the given positional values: absent, a single type or a tuple. -/
def clauseOfSlots : List Ty → Option Ty
  | [] => none
  | [t] => some t
  | ts => some (tuple ts)

end Ty

/-- A return clause as the passes see it. -/
structure ReturnShape where
  /-- The declared values, without the error. -/
  declared : List Ty := []
  /-- The lowered values, without the error. -/
  values : List Ty := []
  /-- An error follows the values. -/
  isResult : Bool := false

namespace ReturnShape

/-- The values of a clause, with the error last if there is one. -/
def slots (shape : ReturnShape) : List Ty :=
  shape.values ++ if shape.isResult then [Ty.error] else []

/-- The lowered return clause. -/
def clause (shape : ReturnShape) : Option Ty := Ty.clauseOfSlots shape.slots

/-- The declared values of a clause, and whether it is a result. -/
def split : Ty → List Ty × Bool
  | .result inner => (inner.slots, true)
  | t => (t.slots, false)

/-- The shape of a return clause. A result has one error only, so a result of a result is
rejected. -/
def ofClause (policy : OptionPolicy) : Option Ty → Except Cause ReturnShape
  | none => .ok {}
  | some (.result (.result inner)) => .error (.nestedResult (.result (.result inner)))
  | some t => do
    let (declared, isResult) := split t
    let values ← Ty.lowerList policy declared
    .ok { declared, values, isResult }

/-- What is known of a return clause. -/
def facts (shape : ReturnShape) : Ty.Facts := { isResult := shape.isResult }

end ReturnShape

/-- The predeclared names of number types. -/
def Ty.numericNames : List String :=
  ["int", "int8", "int16", "int32", "int64", "uint", "uint8", "uint16", "uint32", "uint64",
    "uintptr", "float32", "float64", "complex64", "complex128", "byte", "rune"]

/-- The zero value of a lowered type, for a unit in which `isStruct` tells the struct types. A
named type of which nothing is known has the zero value that a fresh pointer leads to. -/
def Ty.zero (isStruct : String → Bool) : Ty → Expr
  | .named "string" => Expr.string ""
  | .named "bool" => Expr.bool false
  | .named name =>
    if nilNames.contains name then Expr.nil
    else if numericNames.contains name then Expr.int 0
    else if isStruct name then .composite (.named name) [] .nowhere
    else .unary .deref ((Expr.name "new").apply [.ofType (.named name) .nowhere]) .nowhere
  | _ => Expr.nil

end Desugar
