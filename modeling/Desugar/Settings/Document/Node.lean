/-!
# Contents of settings documents

A document is a table of named nodes: texts, further tables and lists. A table can come into
being in four ways, and every name is given once only:

* `[a.b]` opens the table `b` and implies the table `a`, which may still be opened itself;
* `a.b = ...` makes the table `a`, which other dotted keys may extend and no header may open;
* `{ ... }` is complete where it stands.

No setting is a list, so of lists only the empty one is a node.

* `Document.insert` adds a node under a dotted key.
* `Document.declare` opens the table that a header names.
* `Document.within` works on an open table.
-/

namespace Desugar.Document

/-- How a table came into being. -/
inductive Origin where
  /-- A header named a table inside it. -/
  | implied
  /-- A dotted key named something inside it. -/
  | dotted
  /-- A header named it. -/
  | headed
  /-- It was written as one value. -/
  | closed
deriving DecidableEq

/-- What a name in a document stands for. -/
inductive Node where
  | text (value : String)
  | emptyList
  | table (origin : Origin) (entries : List (String × Node))

/-- The node is a table or list that holds nothing. -/
def Node.isEmpty : Node → Bool
  | text _ => false
  | emptyList => true
  | table _ entries => entries.isEmpty

/-- The named nodes of a table, in order. -/
abbrev Entries := List (String × Node)

/-- Puts another node in the place of the one with a name. -/
def replace (name : String) (node : Node) (entries : Entries) : Entries :=
  entries.map fun entry => if entry.1 = name then (name, node) else entry

/-- A dotted key may go through a table with `left` names still to come: through one made by
dotted keys, and through an implied one if it does not end there. -/
def Origin.admits (origin : Origin) (left : Nat) : Bool :=
  match origin with
  | implied => 1 < left
  | dotted => true
  | headed | closed => false

/-- Adds a node under a dotted key; the tables on the way are made if they are missing. -/
def insert (node : Node) : (path : List String) → Entries → Option Entries
  | [], _ => none
  | [name], entries =>
    match entries.lookup name with
    | some _ => none
    | none => some (entries ++ [(name, node)])
  | name :: rest, entries =>
    match entries.lookup name with
    | none => do
      let inner ← insert node rest []
      some (entries ++ [(name, .table .dotted inner)])
    | some (.table origin inner) =>
      if origin.admits rest.length then do
        let inner ← insert node rest inner
        some (replace name (.table origin inner) entries)
      else none
    | some _ => none

/-- Opens the table that a header names. It may be there already only by implication. -/
def declare : (path : List String) → Entries → Option Entries
  | [], _ => none
  | [name], entries =>
    match entries.lookup name with
    | none => some (entries ++ [(name, .table .headed [])])
    | some (.table .implied inner) => some (replace name (.table .headed inner) entries)
    | some _ => none
  | name :: rest, entries =>
    match entries.lookup name with
    | none => do
      let inner ← declare rest []
      some (entries ++ [(name, .table .implied inner)])
    | some (.table .closed _) => none
    | some (.table origin inner) => do
      let inner ← declare rest inner
      some (replace name (.table origin inner) entries)
    | some _ => none

/-- Changes the entries of the table at a path. -/
def within (change : Entries → Option Entries) : (path : List String) → Entries → Option Entries
  | [], entries => change entries
  | name :: rest, entries =>
    match entries.lookup name with
    | some (.table origin inner) => do
      let inner ← within change rest inner
      some (replace name (.table origin inner) entries)
    | _ => none

end Desugar.Document
