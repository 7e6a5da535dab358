import Desugar.Text

/-!
# Keys and texts of settings documents

Keys are bare words or quoted. Texts are quoted by `"`, with escapes, or by `'`, without; three
quotes in a row open a text that may span lines.

* `Document.key?` and `Document.text?` read one at the start of a list of characters, and give the
  characters after it.
* `Document.endOfLine?` and `Document.skipIgnored` pass over what has no meaning.
-/

namespace Desugar.Document

/-- Space or tab. -/
def isSpace (c : Char) : Bool := c == ' ' || c == '\t'

/-- The character may stand in a comment or a quoted text: no control character but the tab. -/
def isPrintable (c : Char) : Bool := c == '\t' || (0x20 ≤ c.toNat && c.toNat != 0x7F)

/-- The character may stand in a bare key. -/
def isBare (c : Char) : Bool :=
  ('a' ≤ c && c ≤ 'z') || ('A' ≤ c && c ≤ 'Z') || c.isDigit || c == '_' || c == '-'

/-- The text without spaces and tabs at its start. -/
def skipSpaces (cs : List Char) : List Char := cs.dropWhile isSpace

/-- The text after a line end. -/
def lineEnd? : List Char → Option (List Char)
  | '\n' :: cs => some cs
  | '\r' :: '\n' :: cs => some cs
  | _ => none

/-- The text after a line end, if there is one at its start. -/
def skipLineEnd (cs : List Char) : List Char := (lineEnd? cs).getD cs

/-- The text after any number of spaces, tabs and line ends. -/
def skipLines : List Char → List Char
  | '\n' :: cs => skipLines cs
  | '\r' :: '\n' :: cs => skipLines cs
  | ' ' :: cs => skipLines cs
  | '\t' :: cs => skipLines cs
  | cs => cs

/-- The text after the end of a line, which may be preceded by spaces and a comment. Nothing else
may stand there; the end of the document ends its last line. -/
def endOfLine? (cs : List Char) : Option (List Char) :=
  let cs := match skipSpaces cs with
    | '#' :: cs => cs.dropWhile isPrintable
    | cs => cs
  match cs with
  | [] => some []
  | cs => lineEnd? cs

/-- The text after any number of spaces, line ends and comments, each on a line that ends. At most
`fuel` comments are skipped. -/
def skipIgnored : (fuel : Nat) → List Char → List Char
  | 0, cs => cs
  | fuel + 1, cs =>
    match skipLines cs with
    | '#' :: rest =>
      match lineEnd? (rest.dropWhile isPrintable) with
      | some rest => skipIgnored fuel rest
      | none => '#' :: rest
    | cs => cs

/-- The characters of single-letter escapes. -/
def simpleEscape? : Char → Option Char
  | 'b' => some '\x08'
  | 't' => some '\t'
  | 'n' => some '\n'
  | 'f' => some '\x0c'
  | 'r' => some '\r'
  | '"' => some '"'
  | '\\' => some '\\'
  | _ => none

/-- The character of an escape, after its backslash, and the text after it. -/
def escape? : List Char → Option (Char × List Char)
  | [] => none
  | c :: cs =>
    match simpleEscape? c with
    | some decoded => some (decoded, cs)
    | none =>
      let width := if c = 'u' then some 4 else if c = 'U' then some 8 else none
      match width with
      | none => none
      | some width =>
        match Escape.digits 16 width 0 cs with
        | (some value, rest) => (Escape.charOf? Escape.codeLimit value).map (·, rest)
        | (none, _) => none

/-- The text after a backslash that ends a line: the line end and all blanks after it are
skipped. -/
def continued? (cs : List Char) : Option (List Char) := (lineEnd? (skipSpaces cs)).map skipLines

/-- Splits off the quotes at the start of a text. -/
def quotes (quote : Char) (cs : List Char) : Nat × List Char :=
  let run := cs.takeWhile (· == quote)
  (run.length, cs.drop run.length)

/-- A quoted text on one line, after its opening quote, and the text after its closing one.
Escapes are decoded if `escapes` holds. At most `fuel` characters are read. -/
def oneLine? (quote : Char) (escapes : Bool) : (fuel : Nat) → List Char →
    Option (List Char × List Char)
  | 0, _ | _, [] => none
  | fuel + 1, c :: cs =>
    if c = quote then some ([], cs)
    else if escapes ∧ c = '\\' then
      match escape? cs with
      | some (decoded, rest) =>
        (oneLine? quote escapes fuel rest).map fun (text, rest) => (decoded :: text, rest)
      | none => none
    else if isPrintable c then
      (oneLine? quote escapes fuel cs).map fun (text, rest) => (c :: text, rest)
    else none

/-- A quoted text that may span lines, after its three opening quotes, and the text after the
closing ones. Up to two quotes may stand right before the closing ones. A line end is read as a
line feed. -/
def manyLines? (quote : Char) (escapes : Bool) : (fuel : Nat) → List Char →
    Option (List Char × List Char)
  | 0, _ | _, [] => none
  | fuel + 1, c :: cs =>
    if c = quote then
      let (count, rest) := quotes quote (c :: cs)
      if count < 3 then
        (manyLines? quote escapes fuel rest).map fun (text, rest) =>
          (List.replicate count quote ++ text, rest)
      else
        let extra := min (count - 3) 2
        some (List.replicate extra quote, (c :: cs).drop (extra + 3))
    else if escapes ∧ c = '\\' then
      match continued? cs with
      | some rest => manyLines? quote escapes fuel rest
      | none =>
        match escape? cs with
        | some (decoded, rest) =>
          (manyLines? quote escapes fuel rest).map fun (text, rest) => (decoded :: text, rest)
        | none => none
    else
      match lineEnd? (c :: cs) with
      | some rest =>
        (manyLines? quote escapes fuel rest).map fun (text, rest) => ('\n' :: text, rest)
      | none =>
        if isPrintable c then
          (manyLines? quote escapes fuel cs).map fun (text, rest) => (c :: text, rest)
        else none

/-- A key and the text after it. -/
def key? : List Char → Option (List Char × List Char)
  | '"' :: cs => oneLine? '"' true (cs.length + 1) cs
  | '\'' :: cs => oneLine? '\'' false (cs.length + 1) cs
  | cs =>
    let key := cs.takeWhile isBare
    if key.isEmpty then none else some (key, cs.drop key.length)

/-- A quoted text of either form and the text after it. -/
def text? : List Char → Option (List Char × List Char)
  | '"' :: '"' :: '"' :: cs => manyLines? '"' true (cs.length + 1) (skipLineEnd cs)
  | '\'' :: '\'' :: '\'' :: cs => manyLines? '\'' false (cs.length + 1) (skipLineEnd cs)
  | '"' :: cs => oneLine? '"' true (cs.length + 1) cs
  | '\'' :: cs => oneLine? '\'' false (cs.length + 1) cs
  | _ => none

end Desugar.Document
