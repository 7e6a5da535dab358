import Desugar.Dispatch
import Desugar.Emit
import Desugar.Imports
import Desugar.Propagation
import Desugar.ValueTypes

/-!
# From a unit to text

`lower` takes a unit in the extended language to one in the base language. The passes run one
after another, and the first that finds a fault ends the work: nothing is ever made of a unit
that is only partly lowered.

`compile` lowers a unit and writes the result out. It gives the text of the whole unit or the
faults that stand in its way, never both.
-/

namespace Desugar

/-- The outcome of work on a unit, and what happened on the way, failed or not. -/
structure Run (α : Type) where
  outcome : Except (List Fault) α
  /-- Packages that inserted code needs. -/
  imports : List String := []
  events : List Event := []

namespace Run

variable {α β : Type}

instance : Monad Run where
  pure a := { outcome := .ok a }
  bind x f :=
    match x.outcome with
    | .ok a =>
      let y := f a
      { outcome := y.outcome, imports := x.imports ++ y.imports, events := x.events ++ y.events }
    | .error faults => { outcome := .error faults, imports := x.imports, events := x.events }

/-- Records an event. -/
def record (event : Event) : Run Unit := { outcome := .ok (), events := [event] }

/-- Runs a part and gives the packages it asks for together with its value. -/
def withImports (x : Run α) : Run (α × List String) :=
  { outcome := x.outcome.map fun a => (a, x.imports), imports := x.imports, events := x.events }

end Run

/-- A finished pass: it has failed if it found a fault. -/
def Noted.run {α : Type} (x : Noted α) : Run α :=
  { outcome := x.outcome, imports := x.notes.imports, events := x.notes.events }

/-- Runs the passes on a unit, in order. -/
def lowerPasses (settings : Settings) (program : Program) : Run Program := do
  Run.record (.started program.name)
  let (program, table) ← (lowerTypes settings program).run
  Run.record (.typed program.name table.size)
  let program ← (propagateErrors table settings program).run
  Run.record (.finished program.name .propagation)
  let program ← (dispatchTasks table settings program).run
  Run.record (.finished program.name .dispatch)
  let program ← (expandTemplates settings program).run
  Run.record (.finished program.name .expansion)
  pure program

/-- Lowers a unit, and imports what the inserted code needs. -/
def lower (settings : Settings) (program : Program) : Run Program := do
  let (program, required) ← (lowerPasses settings program).withImports
  pure { program with imports := Imports.require program.imports required }

/-- Work that ends at its first fault. -/
def Run.ofExcept {α : Type} (x : Except Fault α) : Run α :=
  { outcome := x.mapError fun fault => [fault] }

/-- The text of a unit in the base language. -/
def compile (settings : Settings) (program : Program) : Run String := do
  let lowered ← lower settings program
  Run.ofExcept (emit lowered)

end Desugar
