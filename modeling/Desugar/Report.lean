import Desugar.Fault

/-!
# Reports

Diagnostics as text for a reader: one line each (`Report.summary`), or with the place in the
source and the advice that goes with it (`Report.render`).
-/

namespace Desugar.Report

/-- A diagnostic in one line: the unit, the offset and the headline. -/
def summaryLine (name : String) (d : Diagnostic) : String :=
  name ++ ":" ++ toString d.span.start ++ ": " ++ d.headline

/-- One line for each diagnostic. -/
def summary (name : String) (ds : List Diagnostic) : List String := ds.map (summaryLine name)

/-- The place of a diagnostic in a source of `length` bytes: offset and size of the part that
lies in the source. -/
def place (name : String) (length : Nat) (d : Diagnostic) : String :=
  let span := d.span.clamp length
  "@" ++ name ++ " " ++ toString span.start ++ "+" ++ toString span.size ++ " " ++ d.kind.label

/-- A diagnostic with its place and its advice. -/
def entry (name : String) (length : Nat) (d : Diagnostic) : String :=
  let help := match d.help? with
    | some help => "\nhelp: " ++ help
    | none => ""
  d.headline ++ "\n" ++ place name length d ++ help ++ "\n"

/-- All diagnostics of a unit. -/
def render (name source : String) (ds : List Diagnostic) : String :=
  String.join (ds.map (entry name source.utf8ByteSize))

end Desugar.Report
