import Desugar.Event
import Desugar.Fault

/-!
# Values with notes

A pass over a unit never stops at a fault: it goes on, collects every fault it finds, the packages
that its code needs and the events of its work, and only at its end a single fault makes it fail.
`Noted α` is a value together with such notes, and sequencing concatenates the notes. A pass has
thus found no fault if and only if none of its parts has.
-/

namespace Desugar

/-- What a pass has to say besides its value. -/
structure Notes where
  faults : List Fault := []
  /-- Packages that inserted code needs. -/
  imports : List String := []
  events : List Event := []

namespace Notes

/-- Nothing to say. -/
def empty : Notes := {}

/-- The notes of one step followed by those of the next. -/
def append (m n : Notes) : Notes where
  faults := m.faults ++ n.faults
  imports := m.imports ++ n.imports
  events := m.events ++ n.events

instance : Append Notes := ⟨append⟩

@[simp] theorem faults_empty : empty.faults = [] := rfl
@[simp] theorem imports_empty : empty.imports = [] := rfl
@[simp] theorem events_empty : empty.events = [] := rfl

@[simp] theorem faults_append (m n : Notes) : (m ++ n).faults = m.faults ++ n.faults := rfl
@[simp] theorem imports_append (m n : Notes) : (m ++ n).imports = m.imports ++ n.imports := rfl
@[simp] theorem events_append (m n : Notes) : (m ++ n).events = m.events ++ n.events := rfl

@[simp] theorem empty_append (n : Notes) : empty ++ n = n := rfl

@[simp] theorem append_empty (n : Notes) : n ++ empty = n := by
  cases n with
  | mk faults imports events =>
    show Notes.mk (faults ++ []) (imports ++ []) (events ++ []) = _
    simp

/-- Notes are taken in order, however they are grouped. -/
theorem append_assoc (l m n : Notes) : l ++ m ++ n = l ++ (m ++ n) := by
  show Notes.mk _ _ _ = Notes.mk _ _ _
  simp [List.append_assoc]

end Notes

/-- A value and the notes made on the way to it. -/
structure Noted (α : Type) where
  value : α
  notes : Notes := .empty

namespace Noted

variable {α β : Type}

instance : Monad Noted where
  pure value := { value }
  bind x f :=
    let y := f x.value
    { value := y.value, notes := x.notes ++ y.notes }

@[simp] theorem value_pure (a : α) : (pure a : Noted α).value = a := rfl
@[simp] theorem notes_pure (a : α) : (pure a : Noted α).notes = .empty := rfl

@[simp] theorem value_bind (x : Noted α) (f : α → Noted β) :
    (x >>= f).value = (f x.value).value := rfl
@[simp] theorem notes_bind (x : Noted α) (f : α → Noted β) :
    (x >>= f).notes = x.notes ++ (f x.value).notes := rfl

instance : LawfulMonad Noted := LawfulMonad.mk' Noted
  (fun x => by
    show Noted.mk x.value (x.notes ++ Notes.empty) = x
    rw [Notes.append_empty])
  (fun _ _ => rfl)
  (fun x f g => by
    show Noted.mk _ (_ ++ _ ++ _) = Noted.mk _ (_ ++ (_ ++ _))
    rw [Notes.append_assoc]
    rfl)

/-- Reports faults. -/
def report (faults : List Fault) : Noted Unit := { value := (), notes := { faults } }

/-- Records an event. -/
def record (event : Event) : Noted Unit := { value := (), notes := { events := [event] } }

/-- Asks for packages. -/
def require (imports : List String) : Noted Unit := { value := (), notes := { imports } }

/-- The outcome of a pass: its value, or its faults if there are any. -/
def outcome (x : Noted α) : Except (List Fault) α :=
  match x.notes.faults with
  | [] => .ok x.value
  | faults => .error faults

end Noted

end Desugar
