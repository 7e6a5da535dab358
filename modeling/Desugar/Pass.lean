import Desugar.Fresh
import Desugar.Noted
import Desugar.Path
import Desugar.Tree.Build

/-!
# Lowering passes over a function body

A lowering pass replaces a statement by a sequence of statements, makes up names, and takes
notes. `Pass α` is such a computation: it reads and advances a `NameSupply`, gives a value, and
accumulates the statements it emits and its notes. `Pass.collect` keeps the statements of a part
from being emitted and hands them to the caller, who puts them where they belong.
-/

namespace Desugar

/-- The state of a pass after a step. -/
structure Step (α : Type) where
  value : α
  supply : NameSupply
  /-- The statements emitted by the step. -/
  code : List Stmt := []
  notes : Notes := .empty

/-- A computation of a lowering pass. -/
def Pass (α : Type) : Type := NameSupply → Step α

namespace Pass

variable {α β : Type}

instance : Monad Pass where
  pure value := fun supply => { value, supply }
  bind p f := fun supply =>
    let first := p supply
    let second := f first.value first.supply
    { value := second.value
      supply := second.supply
      code := first.code ++ second.code
      notes := first.notes ++ second.notes }

/-- Makes up a name for a role. -/
def fresh (role : String) : Pass String := fun supply =>
  let (value, supply) := supply.fresh role
  { value, supply }

/-- Makes up one name for each of several roles. -/
def freshList (roles : List String) : Pass (List String) := fun supply =>
  let (value, supply) := supply.freshList roles
  { value, supply }

/-- Emits statements. -/
def emit (code : List Stmt) : Pass Unit := fun supply => { value := (), supply, code }

/-- Takes notes. -/
def note (notes : Notes) : Pass Unit := fun supply => { value := (), supply, notes }

/-- Reports a fault. -/
def report (cause : Cause) (span : Span) : Pass Unit := note { faults := [⟨cause, span⟩] }

/-- Records an event. -/
def record (event : Event) : Pass Unit := note { events := [event] }

/-- Asks for the package that provides a function. -/
def require (function : String) : Pass Unit := note { imports := (Path.package? function).toList }

/-- Runs a part and returns the statements it emits together with its value; nothing is
emitted. -/
def collect (p : Pass α) : Pass (α × List Stmt) := fun supply =>
  let step := p supply
  { value := (step.value, step.code), supply := step.supply, notes := step.notes }

/-- The value of a pass that emits no statement of its own, with its notes. -/
def runWith (p : Pass α) (supply : NameSupply) : Noted α :=
  let step := p supply
  { value := step.value, notes := step.notes }

section Laws

variable (supply : NameSupply)

@[simp] theorem value_pure (a : α) : ((pure a : Pass α) supply).value = a := rfl
@[simp] theorem supply_pure (a : α) : ((pure a : Pass α) supply).supply = supply := rfl
@[simp] theorem code_pure (a : α) : ((pure a : Pass α) supply).code = [] := rfl
@[simp] theorem notes_pure (a : α) : ((pure a : Pass α) supply).notes = .empty := rfl

variable (p : Pass α) (f : α → Pass β)

@[simp] theorem value_bind :
    ((p >>= f) supply).value = (f (p supply).value (p supply).supply).value := rfl
@[simp] theorem supply_bind :
    ((p >>= f) supply).supply = (f (p supply).value (p supply).supply).supply := rfl
@[simp] theorem code_bind :
    ((p >>= f) supply).code = (p supply).code ++ (f (p supply).value (p supply).supply).code := rfl
@[simp] theorem notes_bind :
    ((p >>= f) supply).notes =
      (p supply).notes ++ (f (p supply).value (p supply).supply).notes := rfl

@[simp] theorem value_collect :
    (p.collect supply).value = ((p supply).value, (p supply).code) := rfl
@[simp] theorem supply_collect : (p.collect supply).supply = (p supply).supply := rfl
@[simp] theorem code_collect : (p.collect supply).code = [] := rfl
@[simp] theorem notes_collect : (p.collect supply).notes = (p supply).notes := rfl

end Laws

instance : LawfulMonad Pass := LawfulMonad.mk' Pass
  (fun p => by
    funext supply
    show Step.mk (p supply).value (p supply).supply ((p supply).code ++ [])
      ((p supply).notes ++ Notes.empty) = p supply
    rw [List.append_nil, Notes.append_empty])
  (fun _ _ => rfl)
  (fun p f g => by
    funext supply
    show Step.mk _ _ (_ ++ _ ++ _) (_ ++ _ ++ _) = Step.mk _ _ (_ ++ (_ ++ _)) (_ ++ (_ ++ _))
    rw [List.append_assoc, Notes.append_assoc]
    rfl)

end Pass

end Desugar
