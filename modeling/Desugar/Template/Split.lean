import Desugar.Fault
import Desugar.Template.Syntax
import Desugar.Text
import Desugar.Tree

/-!
# Splitting of templates

The text between the quotes of a template is cut into segments. `\( ... )` embeds an expression,
whose source may be followed by a colon and a verb; every other backslash starts an escape; all
else stands for itself. The source of an embed is handed to a reader of expressions without the
blanks at its ends. The reader comes from outside and may keep a state of its own, so a text is
split in the monad of its reader.

* `Template.pieces` reads the text from left to right, and the first fault in it decides.
* `Template.split` joins the characters between embeds to text segments.
-/

namespace Desugar.Template

/-- The number of bytes of a text. -/
def byteCount : List Char → Nat
  | [] => 0
  | c :: cs => c.utf8Size + byteCount cs

/-- What the text of a template is made of. -/
inductive Piece where
  | char (c : Char)
  | embed (value : Expr) (verb : Option String) (span : Span)

/-- The source of an embed and its verb, if it has one. -/
def sourceAndVerb (body : List Char) : List Char × Option (List Char) :=
  match Nesting.lastColon? {} body with
  | some (source, verb) => (source, some (Blank.trim verb))
  | none => (body, none)

/-- A reader of expressions, which is given their source and its place. -/
abbrev Reader (m : Type → Type := Except Fault) := String → Span → m Expr

variable {m : Type → Type} [Monad m] [MonadExcept Fault m]

/-- Reads the embed with a body that starts at `offset`. -/
def embed (read : Reader m) (offset : Nat) (body : List Char) (span : Span) : m Piece :=
  let (source, verb) := sourceAndVerb body
  let trimmed := Blank.trim source
  let verb := verb.map String.ofList
  if trimmed.isEmpty then throw (Fault.mk .emptyEmbed span)
  else
    match verb.filter fun verb => !Verb.isVerb verb with
    | some verb => throw (Fault.mk (.unknownEmbedVerb verb) span)
    | none => do
      let value ← read (String.ofList trimmed) ⟨offset, offset + byteCount source⟩
      pure (.embed value verb span)

/-- The pieces of a text that starts at `offset` and ends at `stop`. -/
def pieces (read : Reader m) (stop offset : Nat) (cs : List Char) : m (List Piece) :=
  match cs with
  | [] => pure []
  | ['\\'] => throw (Fault.mk .danglingBackslash ⟨offset, offset + 1⟩)
  | '\\' :: '(' :: cs =>
    match h : Nesting.closing? {} cs with
    | some (body, rest) =>
      have := Nesting.length_lt_of_closing? h
      let next := offset + 2 + byteCount body + 1
      do
        let piece ← embed read (offset + 2) body ⟨offset, next⟩
        let others ← pieces read stop next rest
        pure (piece :: others)
    | none => throw (Fault.mk .unterminatedEmbed ⟨offset, stop⟩)
  | '\\' :: first :: cs =>
    have := Escape.length_decode_le first cs
    let rest := (Escape.decode first cs).2
    let next := offset + 1 + first.utf8Size + (byteCount cs - byteCount rest)
    match (Escape.decode first cs).1 with
    | some c => do
      let others ← pieces read stop next rest
      pure (.char c :: others)
    | none => throw (Fault.mk (.invalidEscape first) ⟨offset, next⟩)
  | c :: cs => do
    let others ← pieces read stop (offset + c.utf8Size) cs
    pure (.char c :: others)
termination_by cs.length

/-- Adds a character in front of segments. -/
def consChar (c : Char) : List Segment → List Segment
  | .text value :: rest => .text (String.singleton c ++ value) :: rest
  | segments => .text (String.singleton c) :: segments

/-- Joins the characters between embeds. -/
def gather : List Piece → List Segment
  | [] => []
  | .char c :: rest => consChar c (gather rest)
  | .embed value verb span :: rest => .embed value verb span :: gather rest

/-- The segments of the text of a template at a place. -/
def split (read : Reader m) (raw : String) (span : Span) : m (List Segment) := do
  let cs := raw.toList
  let all ← pieces read (span.start + byteCount cs) span.start cs
  pure (gather all)

end Desugar.Template
