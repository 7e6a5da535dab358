/-!
# Types

Types as they are written in a program unit: the types of the base language together with the
three extended constructors, options `T?`, results `Result<T>` and pointers `*!T` that are never
nil. A tuple is the shape of a return clause with several values.

* `Ty.spelling` is the text of a type in messages.
* `Ty.isBase` holds of types without an extended constructor.
* `Ty.slots` flattens a return clause into its positional values.
-/

namespace Desugar

/-- Which ends of a channel a type gives access to. -/
inductive Direction where
  | both
  | send
  | receive
deriving DecidableEq, Inhabited

/-- A type expression. -/
inductive Ty where
  /-- A type referred to by name. -/
  | named (name : String)
  /-- A slice. -/
  | array (element : Ty)
  | map (key value : Ty)
  /-- A value that may be absent. -/
  | option (inner : Ty)
  /-- A value or an error; only a return clause may have this form. -/
  | result (inner : Ty)
  /-- A pointer; `nillable` tells whether it may be nil. -/
  | pointer (inner : Ty) (nillable : Bool)
  | channel (inner : Ty) (direction : Direction)
  /-- Several values of a return clause; the empty tuple stands for none. -/
  | tuple (slots : List Ty)
deriving Inhabited

namespace Ty

/-- The type of error values. -/
def error : Ty := named "error"

/-- The outermost constructor is a result. -/
def isResult : Ty → Bool
  | result _ => true
  | _ => false

/-- The outermost constructor is an option. -/
def isOption : Ty → Bool
  | option _ => true
  | _ => false

/-- The type is a pointer that is never nil. -/
def isNonNillable : Ty → Bool
  | pointer _ nillable => !nillable
  | _ => false

/-- The predeclared type names whose zero value is nil. -/
def nilNames : List String := ["error", "any", "interface\x7b\x7d"]

/-- The zero value of the type is nil. -/
def isReferenceLike : Ty → Bool
  | named name => nilNames.contains name
  | array _ | map _ _ | pointer _ _ | channel _ _ | option _ => true
  | result _ | tuple _ => false

mutual
/-- No option, result or non-nillable pointer occurs in the type. -/
def isBase (t : Ty) : Bool :=
  match t with
  | named _ => true
  | array element => element.isBase
  | map key value => key.isBase && value.isBase
  | option _ | result _ => false
  | pointer inner nillable => nillable && inner.isBase
  | channel inner _ => inner.isBase
  | tuple slots => allBase slots
termination_by structural t

/-- Every type of the list is base. -/
def allBase (ts : List Ty) : Bool :=
  match ts with
  | [] => true
  | t :: ts => t.isBase && allBase ts
termination_by structural ts
end

/-- The positional values of a return clause. -/
def slots : Ty → List Ty
  | tuple ts => ts
  | t => [t]

/-- The name under which methods of a receiver of this type are kept: pointer layers are
stripped, and a type without a name of its own gives the empty text. -/
def receiverName : Ty → String
  | pointer inner _ => inner.receiverName
  | named name => name
  | _ => ""

mutual
/-- The type as it is spelled in messages. -/
def spelling (t : Ty) : String :=
  match t with
  | named name => name
  | array element => "[]" ++ element.spelling
  | map key value => "map[" ++ key.spelling ++ "]" ++ value.spelling
  | option inner => inner.spelling ++ "?"
  | result inner => "Result<" ++ inner.spelling ++ ">"
  | pointer inner true => "*" ++ inner.spelling
  | pointer inner false => "*!" ++ inner.spelling
  | channel inner .both => "chan " ++ inner.spelling
  | channel inner .send => "chan<- " ++ inner.spelling
  | channel inner .receive => "<-chan " ++ inner.spelling
  | tuple slots => "(" ++ ", ".intercalate (spellings slots) ++ ")"
termination_by structural t

/-- The spellings of a list of types. -/
def spellings (ts : List Ty) : List String :=
  match ts with
  | [] => []
  | t :: ts => t.spelling :: spellings ts
termination_by structural ts
end

end Ty

end Desugar
