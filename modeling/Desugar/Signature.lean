import Desugar.Ty.Lowering

/-!
# Signatures

What the passes know of the functions of a unit. A `Signature` keeps the declared types, which
checks are made against, and the lowered values of the return clause, which code is lowered
with. A `SignatureTable` holds the signatures of a unit by key (the name of a function, or the
type and the name of a method) and the names of its struct types.
-/

namespace Desugar

/-- The signature of a function or method. -/
structure Signature where
  name : String
  /-- Declared parameter types. -/
  params : List Ty
  /-- The shape of the return clause. -/
  returns : ReturnShape

namespace Signature

/-- The call may fail: its last value is an error. -/
def isResult (sig : Signature) : Bool := sig.returns.isResult

/-- The lowered values, without the error. -/
def values (sig : Signature) : List Ty := sig.returns.values

/-- The lowered values of a call, error included. -/
def slots (sig : Signature) : List Ty := sig.returns.slots

/-- How many values a call has, error included. -/
def slotCount (sig : Signature) : Nat := sig.values.length + if sig.isResult then 1 else 0

/-- The lowered return clause. -/
def clause (sig : Signature) : Option Ty := sig.returns.clause

/-- The call cannot fail and its single value may be nil by its declared type. -/
def mayReturnNil (sig : Signature) : Bool :=
  !sig.isResult && match sig.returns.declared with
    | [.option _] => true
    | [.pointer _ nillable] => nillable
    | _ => false

end Signature

/-- The key of a method of a type. -/
def methodKey (typeName method : String) : String := typeName ++ "." ++ method

/-- The key under which the signature of a function is kept. -/
def Function.key (f : Function) : String :=
  match f.receiver with
  | some receiver => methodKey receiver.ty.receiverName f.name
  | none => f.name

/-- The signatures and struct names of a unit. -/
structure SignatureTable where
  functions : List (String × Signature) := []
  structs : List String := []

namespace SignatureTable

/-- Records a signature; an earlier one with the same key is replaced. -/
def insert (table : SignatureTable) (key : String) (sig : Signature) : SignatureTable :=
  { table with functions := (key, sig) :: table.functions.filter (·.1 != key) }

/-- Records a struct type. -/
def insertStruct (table : SignatureTable) (name : String) : SignatureTable :=
  { table with structs := name :: table.structs }

/-- The signature with a key. -/
def get? (table : SignatureTable) (key : String) : Option Signature := table.functions.lookup key

/-- The name is that of a struct type of the unit. -/
def isStruct (table : SignatureTable) (name : String) : Bool := table.structs.contains name

/-- The number of signatures. -/
def size (table : SignatureTable) : Nat := table.functions.length

end SignatureTable

end Desugar
