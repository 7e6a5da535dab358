import Desugar.Propagation
import Desugar.Proofs.Meaning.Env
import Desugar.Proofs.Propagation.Names

/-!
# The meaning of loop-free code

Operands are evaluated from left to right, `&&` and `||` evaluate their right operand only if the
left one does not decide, and code acts on the rest of the world through calls, receives, stores
and launched tasks. Every such action is appended to a trace, and what comes back from it is the
answer that an arbitrary host gives to the trace. Everything else (reads of variables, operators,
constants) is a pure function of values, which the host is free to choose.

The same rules read code of the extended and of the base language. A function with a result is
read with the zero values that it returns beside an error: there `try` may end the function, `throw`
ends it, and a `return` that leaves out the error has nil in its place. The zero values and the
functions that make errors do not depend on the variables in scope, whereas a written name, `new`
included, stands for a variable of that name if there is one.

- `Host` is what the language is run on, `Action` what code does to it.
- `Eval` is a computation that acts and that may leave the function.
- `World.values` evaluates an expression and `World.block` runs a block; loops are left out.
-/

namespace Desugar

/-- Where a value can be stored. -/
inductive Place (V : Type) where
  | name (name : String)
  | index (base index : V)
  | field (base : V) (field : String)
  | deref (pointer : V)
  /-- Something that is no variable; storing there has no effect. -/
  | nowhere

/-- What code does to the rest of the world. -/
inductive Action (V : Type) where
  | call (callee : V) (args : List V)
  | receive (channel : V)
  | store (place : Place V) (op : AssignOp) (value : V)
  /-- A call that runs later or elsewhere. -/
  | launch (launch : Launch) (callee : V) (args : List V)
  /-- A call whose results names are bound to. -/
  | bind (callee : V) (args : List V)

/-- How code leaves a function before its end, or a loop that is not part of it. -/
inductive Exit (V : Type) where
  | returned (values : List V)
  | broke
  | continued
  /-- A loop was reached, which has no meaning here. -/
  | looped

/-- A computation: it extends the trace, and gives a value or leaves. -/
def Eval (V α : Type) : Type := List (Action V) → Except (Exit V) α × List (Action V)

namespace Eval

variable {V α β : Type}

instance : Monad (Eval V) where
  pure a := fun trace => (.ok a, trace)
  bind x f := fun trace =>
    match x trace with
    | (.ok a, trace) => f a trace
    | (.error exit, trace) => (.error exit, trace)

/-- Leaves. -/
def leave (exit : Exit V) : Eval V α := fun trace => (.error exit, trace)

@[simp] theorem leave_bind (exit : Exit V) (f : α → Eval V β) : leave exit >>= f = leave exit := rfl

instance : LawfulMonad (Eval V) := LawfulMonad.mk' (Eval V)
  (fun x => by
    funext trace
    show (match x trace with
      | (.ok a, trace) => (.ok a, trace)
      | (.error exit, trace) => (.error exit, trace)) = x trace
    split <;> rename_i h <;> exact h.symm)
  (fun _ _ => rfl)
  (fun x f g => by
    funext trace
    show (match (match x trace with
        | (.ok a, trace) => f a trace
        | (.error exit, trace) => (.error exit, trace)) with
      | (.ok b, trace) => g b trace
      | (.error exit, trace) => (.error exit, trace)) =
      (match x trace with
      | (.ok a, trace) => (f a >>= g) trace
      | (.error exit, trace) => (.error exit, trace))
    cases x trace with
    | mk outcome trace => cases outcome <;> rfl)

end Eval

/-- A part of an evaluated template. -/
inductive Piece (V : Type) where
  | text (value : String)
  | value (value : V) (verb : Option String)

/-- What code is run on: the operators, and the answers to what code does. -/
structure Host (V : Type) where
  lit : Literal → V
  /-- The value of a name that is no local variable. -/
  global : String → V
  ofType : Ty → V
  /-- `new(T)`: a pointer to a zero value. -/
  allocate : Ty → V
  binary : BinaryOp → V → V → V
  unary : UnaryOp → V → V
  field : V → String → V
  index : V → V → V
  composite : Ty → List (Option V × V) → V
  template : List (Piece V) → V
  /-- The value of a variable that is declared without one. -/
  unset : Option Ty → V
  /-- A function literal, given by what its body does with arguments. -/
  closure : List Param → (List V → Eval V Unit) → V
  /-- The value is the truth value true. -/
  holds : V → Bool
  holds_not : ∀ v, holds (unary .not v) = !holds v
  /-- What comes back from the last action of a trace. -/
  answer : List (Action V) → List V

/-- A host, and what is known of the function that runs on it. -/
structure World (V : Type) extends Host V where
  context : Propagation.Context

/-- The type `T` of a call that is written `new(T)`. -/
def allocated? : Expr → List Expr → Option Ty
  | .ident "new" _, [.ofType ty _] => some ty
  | _, _ => none

/-- The expressions are a single `try`. -/
def isSoleAttempt : List Expr → Bool
  | [e] => e.isAttempt
  | _ => false

namespace World

variable {V : Type} (w : World V)

/-- The value nil. -/
def nil : V := w.lit .nil

/-- The value of an expression where one is needed. -/
def first (values : List V) : V := values.headD w.nil

/-- The values of sibling operands: all values of a single one, and one value each of several. -/
def spread : List (List V) → List V
  | [values] => values
  | lists => lists.map w.first

/-- The first `count` values; missing ones are nil. -/
def pad (count : Nat) (values : List V) : List V := (List.range count).map (values.getD · w.nil)

/-- The value of a name. -/
def read (ρ : Env V) (x : String) : V := (ρ.get? x).getD (w.global x)

/-- Acts, and gives the answer. -/
def act (action : Action V) : Eval V (List V) := fun trace =>
  (.ok (w.answer (trace ++ [action])), trace ++ [action])

/-- Evaluates a callee and its arguments, and does something with them. -/
def start (action : V → List V → Action V) (callee : Eval V V) (args : Eval V (List V)) :
    Eval V (List V) := do
  let callee ← callee
  let args ← args
  w.act (action callee args)

/-- The value of an expression without variables, as zero values are. -/
def constant : Expr → V
  | .lit value _ => w.lit value
  | .composite ty _ _ => w.composite ty []
  | .unary op (.call _ [.ofType ty _] _) _ => w.unary op (w.allocate ty)
  | _ => w.nil

/-- What a function path leads to from the value of the name that it starts with. -/
def follow (path : String) (v : V) : V :=
  (Path.parts '.' path.toList).tail.foldl (fun v part => w.field v (String.ofList part)) v

/-- The function at a path, whatever the variables in scope are. -/
def pathValue (path : String) : V := w.follow path (w.global (Path.head path))

/-- How many values a call has besides its error. -/
def valueCount : Expr → Nat
  | .call callee _ _ => ((w.context.resolve? callee).map fun sig => sig.values.length).getD 0
  | _ => 0

/-- The values of a `try` after its call: the first `count` results, unless the error that
follows them is not nil. Then the function returns its zero values and the error. -/
def attempted (zeros? : Option (List Expr)) (count : Nat) (results : List V) : Eval V (List V) :=
  let error := results.getD count w.nil
  match zeros? with
  | some zeros =>
    if w.holds (w.binary .ne error w.nil) then
      .leave (.returned (zeros.map w.constant ++ [error]))
    else pure (w.pad count results)
  | none => pure (w.pad count results)

/-- The left operand decides the value of `&&` or `||`. -/
def decides : BinaryOp → V → Bool
  | .and, left => !w.holds left
  | .or, left => w.holds left
  | _, _ => false

/-- The value of an operator whose left operand has not decided it. -/
def combine (op : BinaryOp) (left right : V) : V :=
  if op.isShortCircuit then right else w.binary op left right

/-- The zero values of a function with a given return clause, if it returns a result. -/
def zeros? (returns : Option Ty) : Option (List Expr) :=
  match ReturnShape.ofClause w.context.settings.optionPolicy returns with
  | .ok shape =>
    if shape.isResult then some (shape.values.map (Ty.zero w.context.table.isStruct)) else none
  | .error _ => none

/-- Stores a value at a place. -/
def store (op : AssignOp) (ρ : Env V) (place : Place V) (value : V) : Eval V (Env V) :=
  match place, op with
  | .name x, .define => pure (ρ.declare x value)
  | .name x, .store => pure (ρ.set x value)
  | .name x, .update op => pure (ρ.set x (w.binary op (w.read ρ x) value))
  | .nowhere, _ => pure ρ
  | place, op => do
    let _ ← w.act (.store place op value)
    pure ρ

/-- Stores values at places, from left to right; missing values are nil. -/
def storeAll (w : World V) (op : AssignOp) (ρ : Env V) : List (Place V) → List V → Eval V (Env V)
  | [], _ => pure ρ
  | place :: places, values => do
    let ρ ← w.store op ρ place (w.first values)
    w.storeAll op ρ places values.tail

/-- Declares variables; missing values are nil. -/
def declareAll (w : World V) (ρ : Env V) : List String → List V → Env V
  | [], _ => ρ
  | x :: names, values => w.declareAll (ρ.declare x (w.first values)) names values.tail

/-- The single value is a call that has `count` values and an error. -/
def passesOn (count : Nat) : List Expr → Bool
  | [value] =>
    match Propagation.failing? w.context value with
    | some sig => sig.values.length == count
    | none => false
  | _ => false

/-- What a function returns. One that returns a result adds a missing error. -/
def returned (zeros? : Option (List Expr)) (values : List Expr) (lists : List (List V)) : List V :=
  match zeros? with
  | none => w.spread lists
  | some zeros =>
    if isSoleAttempt values then w.spread lists ++ [w.nil]
    else if w.passesOn zeros.length values then w.spread lists
    else if values.length = zeros.length then lists.map w.first ++ [w.nil]
    else w.spread lists

/-- What `throw` returns: the zero values and the error. -/
def thrown (zeros? : Option (List Expr)) (errors : List V) : List V :=
  match zeros?.getD [] with
  | [] => errors
  | zeros => zeros.map w.constant ++ [w.first errors]

/-- The format of a template as a value. -/
def formatText (segments : List Segment) : V :=
  match Template.format segments with
  | .ok (text, _) => w.lit (.string (String.ofList text))
  | .error _ => w.nil

end World

/-- The value of an embed, if the part of a template is one. -/
def Piece.value? {V : Type} : Piece V → Option V
  | .text _ => none
  | .value v _ => some v

namespace World

variable {V : Type}

mutual
/-- Evaluates an expression to its values: as many as the host answers for a call or a receive,
as many as the callee has for a `try`, and one for any other expression. -/
def values (w : World V) (zeros? : Option (List Expr)) (ρ : Env V) (e : Expr) : Eval V (List V) :=
  match e with
  | .ident name _ => pure [w.read ρ name]
  | .lit value _ => pure [w.lit value]
  | .ofType ty _ => pure [w.ofType ty]
  | .call callee args _ =>
    -- A variable may hide the built-in function.
    match allocated? callee args, ρ.get? "new" with
    | some ty, none => pure [w.allocate ty]
    | _, _ =>
      w.start .call (w.first <$> w.values zeros? ρ callee) (w.spread <$> w.valuesList zeros? ρ args)
  | .template segments _ => do
    let pieces ← w.pieces zeros? ρ segments
    pure [w.template pieces]
  | .attempt operand _ => do
    let results ← w.values zeros? ρ operand
    w.attempted zeros? (w.valueCount operand) results
  | .binary op left right _ => do
    let left ← w.first <$> w.values zeros? ρ left
    if w.decides op left then pure [left]
    else do
      let right ← w.first <$> w.values zeros? ρ right
      pure [w.combine op left right]
  | .unary op operand _ => do
    let operand ← w.first <$> w.values zeros? ρ operand
    if op = .receive then w.act (.receive operand) else pure [w.unary op operand]
  | .selector base field _ => do
    let base ← w.first <$> w.values zeros? ρ base
    pure [w.field base field]
  | .index base index _ => do
    let base ← w.first <$> w.values zeros? ρ base
    let index ← w.first <$> w.values zeros? ρ index
    pure [w.index base index]
  | .composite ty elements _ => do
    let elements ← w.elements zeros? ρ elements
    pure [w.composite ty elements]
  | .func params returns body _ =>
    pure [w.closure params fun args => do
      let _ ← w.block (w.zeros? returns) (w.declareAll ρ (params.map (·.name)) args) body
      pure ()]
termination_by structural e

/-- Evaluates operands from left to right. -/
def valuesList (w : World V) (zeros? : Option (List Expr)) (ρ : Env V) (es : List Expr) :
    Eval V (List (List V)) :=
  match es with
  | [] => pure []
  | e :: rest => do
    let values ← w.values zeros? ρ e
    let lists ← w.valuesList zeros? ρ rest
    pure (values :: lists)
termination_by structural es

/-- Evaluates the elements of a composite literal, a key before its value. -/
def elements (w : World V) (zeros? : Option (List Expr)) (ρ : Env V) (es : List Element) :
    Eval V (List (Option V × V)) :=
  match es with
  | [] => pure []
  | ⟨none, value⟩ :: rest => do
    let value ← w.first <$> w.values zeros? ρ value
    let rest ← w.elements zeros? ρ rest
    pure ((none, value) :: rest)
  | ⟨some key, value⟩ :: rest => do
    let key ← w.first <$> w.values zeros? ρ key
    let value ← w.first <$> w.values zeros? ρ value
    let rest ← w.elements zeros? ρ rest
    pure ((some key, value) :: rest)
termination_by structural es

/-- Evaluates the embeds of a template. -/
def pieces (w : World V) (zeros? : Option (List Expr)) (ρ : Env V) (segments : List Segment) :
    Eval V (List (Piece V)) :=
  match segments with
  | [] => pure []
  | .text text :: rest => do
    let rest ← w.pieces zeros? ρ rest
    pure (.text text :: rest)
  | .embed value verb _ :: rest => do
    let value ← w.first <$> w.values zeros? ρ value
    let rest ← w.pieces zeros? ρ rest
    pure (.value value verb :: rest)
termination_by structural segments

/-- Evaluates the operands of assignable places from left to right. -/
def places (w : World V) (zeros? : Option (List Expr)) (ρ : Env V) (es : List Expr) :
    Eval V (List (Place V)) :=
  match es with
  | [] => pure []
  | e :: rest => do
    let place ← match e with
      | .ident name _ => pure (.name name)
      | .index base index _ => do
        let base ← w.first <$> w.values zeros? ρ base
        let index ← w.first <$> w.values zeros? ρ index
        pure (.index base index)
      | .selector base field _ => do
        let base ← w.first <$> w.values zeros? ρ base
        pure (.field base field)
      | .unary .deref operand _ => do
        let operand ← w.first <$> w.values zeros? ρ operand
        pure (.deref operand)
      | other => do
        let _ ← w.values zeros? ρ other
        pure .nowhere
    let places ← w.places zeros? ρ rest
    pure (place :: places)
termination_by structural es

/-- Runs a block. -/
def block (w : World V) (zeros? : Option (List Expr)) (ρ : Env V) (body : Block) :
    Eval V (Env V) :=
  match body with
  | ⟨stmts, _⟩ => do
    let later ← w.stmts zeros? ρ stmts
    pure (ρ.restore later)
termination_by structural body

/-- Runs statements. -/
def stmts (w : World V) (zeros? : Option (List Expr)) (ρ : Env V) (list : List Stmt) :
    Eval V (Env V) :=
  match list with
  | [] => pure ρ
  | stmt :: rest => do
    let ρ ← w.stmt zeros? ρ stmt
    w.stmts zeros? ρ rest
termination_by structural list

/-- Runs a statement. A loop has no meaning here. -/
def stmt (w : World V) (zeros? : Option (List Expr)) (ρ : Env V) (s : Stmt) : Eval V (Env V) :=
  match s with
  | .var names ty values _ => do
    let results ← w.spread <$> w.valuesList zeros? ρ values
    let results := if values.isEmpty then names.map fun _ => w.unset ty else results
    pure (w.declareAll ρ (names.map (·.name)) results)
  | .assign targets op values _ => do
    let places ← w.places zeros? ρ targets
    let results ← w.spread <$> w.valuesList zeros? ρ values
    w.storeAll op ρ places results
  | .expr value => do
    let _ ← w.values zeros? ρ value
    pure ρ
  | .ret values _ => do
    let lists ← w.valuesList zeros? ρ values
    .leave (.returned (w.returned zeros? values lists))
  | .throw value _ => do
    let errors ← match value with
      | .lit (.string text) _ =>
        w.act (.call (w.pathValue w.context.settings.errorConstructor) [w.lit (.string text)])
      | .template segments _ => do
        let pieces ← w.pieces zeros? ρ segments
        w.act (.call (w.pathValue w.context.settings.errorFormatFunction)
          (w.formatText segments :: pieces.filterMap Piece.value?))
      | other => w.values zeros? ρ other
    .leave (.returned (w.thrown zeros? errors))
  | .cond branch => w.branch zeros? ρ branch
  | .loop _ _ _ => .leave .looped
  | .bind names call _ => do
    let results ← match call with
      | .call callee args _ =>
        w.start .bind (w.first <$> w.values zeros? ρ callee)
          (w.spread <$> w.valuesList zeros? ρ args)
      | other => w.values zeros? ρ other
    pure (w.declareAll ρ (names.map (·.name)) results)
  | .go call _ => do
    let _ ← match call with
      | .call callee args _ =>
        w.start (.launch .go) (w.first <$> w.values zeros? ρ callee)
          (w.spread <$> w.valuesList zeros? ρ args)
      | other => w.values zeros? ρ other
    pure ρ
  | .defer call _ => do
    let _ ← match call with
      | .call callee args _ =>
        w.start (.launch .defer) (w.first <$> w.values zeros? ρ callee)
          (w.spread <$> w.valuesList zeros? ρ args)
      | other => w.values zeros? ρ other
    pure ρ
  | .breakLoop _ => .leave .broke
  | .continueLoop _ => .leave .continued
  | .block body => w.block zeros? ρ body
termination_by structural s

/-- Runs a conditional. -/
def branch (w : World V) (zeros? : Option (List Expr)) (ρ : Env V) (branch : If) :
    Eval V (Env V) :=
  match branch with
  | ⟨condition, thenBlock, otherwise, _⟩ => do
    let condition ← w.first <$> w.values zeros? ρ condition
    if w.holds condition then w.block zeros? ρ thenBlock else w.otherwise zeros? ρ otherwise
termination_by structural branch

/-- Runs what follows a failed condition. A conditional there is in a block of its own. -/
def otherwise (w : World V) (zeros? : Option (List Expr)) (ρ : Env V) (e : Else) :
    Eval V (Env V) :=
  match e with
  | .none => pure ρ
  | .block body => w.block zeros? ρ body
  | .elseIf branch => do
    let later ← w.branch zeros? ρ branch
    pure (ρ.restore later)
termination_by structural e
end

/-- Runs the body of a function on the variables that its parameters are. -/
def run (w : World V) (zeros? : Option (List Expr)) (ρ : Env V) (body : Block) : Eval V Unit := do
  let _ ← w.block zeros? ρ body
  pure ()

end World

end Desugar
