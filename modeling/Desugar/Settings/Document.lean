import Desugar.Settings.Document.Node
import Desugar.Settings.Document.Text

/-!
# Settings documents

A settings document names texts and tables, one entry a line, in the notation of TOML:

```text
# a comment
hidden-prefix = "lowered_"
'format-function' = 'text.Format'
[option-policy.always-pointer]
```

An entry belongs to the table of the last header before it. Settings are texts and tables, so a
document with a number, a date, a truth value or a list that holds something is malformed.

* `Document.value?` and `Document.line?` read one value and one line.
* `Document.read?` gives the entries of a whole document.
-/

namespace Desugar.Document

/-- A dotted key, with spaces around its parts, and the text after it. At most `fuel` parts are
read. -/
def pathWith? : (fuel : Nat) → List Char → Option (List String × List Char)
  | 0, _ => none
  | fuel + 1, cs => do
    let (name, cs) ← key? (skipSpaces cs)
    match skipSpaces cs with
    | '.' :: cs =>
      let (rest, cs) ← pathWith? fuel cs
      some (String.ofList name :: rest, cs)
    | cs => some ([String.ofList name], cs)

/-- A dotted key and the text after it. -/
def path? (cs : List Char) : Option (List String × List Char) := pathWith? (cs.length + 1) cs

/-- The text after an equals sign with spaces around it. -/
def equals? (cs : List Char) : Option (List Char) :=
  match skipSpaces cs with
  | '=' :: cs => some (skipSpaces cs)
  | _ => none

mutual
/-- A value and the text after it. At most `fuel` values and keys are read. -/
def valueWith? (fuel : Nat) (cs : List Char) : Option (Node × List Char) :=
  match fuel with
  | 0 => none
  | fuel + 1 =>
    match cs with
    | '\x7b' :: cs =>
      match skipSpaces cs with
      | '\x7d' :: cs => some (.table .closed [], cs)
      | cs => (entriesWith? fuel [] cs).map fun (entries, cs) => (.table .closed entries, cs)
    | '[' :: cs =>
      match skipIgnored (cs.length + 1) cs with
      | ']' :: cs => some (.emptyList, cs)
      | _ => none
    | cs => (text? cs).map fun (text, cs) => (.text (String.ofList text), cs)
termination_by structural fuel

/-- Further entries of a table in braces, after those read so far, and the text after its closing
brace. A comma is followed by another entry. -/
def entriesWith? (fuel : Nat) (entries : Entries) (cs : List Char) :
    Option (Entries × List Char) :=
  match fuel with
  | 0 => none
  | fuel + 1 => do
    let (path, cs) ← path? cs
    let cs ← equals? cs
    let (node, cs) ← valueWith? fuel cs
    let entries ← insert node path entries
    match skipSpaces cs with
    | ',' :: cs => entriesWith? fuel entries cs
    | '\x7d' :: cs => some (entries, cs)
    | _ => none
termination_by structural fuel
end

/-- A value and the text after it. -/
def value? (cs : List Char) : Option (Node × List Char) := valueWith? (cs.length + 1) cs

/-- A line that says something. -/
inductive Line where
  | header (path : List String)
  | entry (path : List String) (node : Node)

/-- A line without its end, and the text after it. -/
def line? : List Char → Option (Line × List Char)
  | '[' :: cs => do
    match ← path? cs with
    | (path, ']' :: cs) => some (.header path, cs)
    | _ => none
  | cs => do
    let (path, cs) ← path? cs
    let cs ← equals? cs
    let (node, cs) ← value? cs
    some (.entry path node, cs)

/-- A document in the course of reading: its entries, and the path of the table that the next
entry belongs to. -/
structure Draft where
  entries : Entries := []
  current : List String := []

/-- Adds what a line says. -/
def Draft.add (draft : Draft) : Line → Option Draft
  | .header path => do
    let entries ← declare path draft.entries
    some { entries, current := path }
  | .entry path node => do
    let entries ← within (insert node path) draft.current draft.entries
    some { draft with entries }

/-- Reads the lines of a document, at most `fuel` of them. -/
def lines? : (fuel : Nat) → Draft → List Char → Option Entries
  | 0, _, _ => none
  | fuel + 1, draft, cs =>
    match skipSpaces cs with
    | [] => some draft.entries
    | cs =>
      match endOfLine? cs with
      | some rest => lines? fuel draft rest
      | none => do
        let (line, rest) ← line? cs
        let rest ← endOfLine? rest
        let draft ← draft.add line
        lines? fuel draft rest

/-- The text after a byte order mark. -/
def skipMark : List Char → List Char
  | '\uFEFF' :: cs => cs
  | cs => cs

/-- The entries of a document, or nothing if it is malformed. -/
def read? (text : String) : Option Entries :=
  let cs := skipMark text.toList
  lines? (cs.length + 1) {} cs

end Desugar.Document
