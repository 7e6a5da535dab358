/-!
# The syntax of embeds

Where an embedded expression ends, and where its verb begins, is decided without parsing it: only
brackets and literals are followed. A bracket or colon inside a literal does not count, a
backslash in a literal takes the next character with it unless the literal is a raw one, and
brackets of different shapes are not told apart.

A verb tells how an embedded value is formatted: any number of flags, a width, a precision after
a point, and one letter, such as `d`, `+v` or `08.3f`. Whether a verb suits the type of the value
is not decided here.

* `Nesting.closing?` cuts a text at the parenthesis that closes it.
* `Nesting.lastColon?` cuts a text at its last colon outside brackets and literals.
* `Verb.isVerb` tells which texts are verbs.
-/

namespace Desugar

/-! ### Verbs -/

namespace Verb

/-- A flag character. -/
def isFlag (c : Char) : Bool := ['+', '-', '#', ' ', '0'].contains c

/-- The letter that ends a verb. -/
def isLetter (c : Char) : Bool := "vTtbcdoOqxXUeEfFgGspw".toList.contains c

/-- Drops a point and the digits after it, if the text starts with a point. -/
def dropPrecision : List Char → List Char
  | '.' :: cs => cs.dropWhile Char.isDigit
  | cs => cs

/-- The text is a verb. Each part takes as many characters as it can, and exactly one letter has
to be left. -/
def isVerbChars (cs : List Char) : Bool :=
  match dropPrecision ((cs.dropWhile isFlag).dropWhile Char.isDigit) with
  | [letter] => isLetter letter
  | _ => false

/-- The text is a verb. -/
def isVerb (text : String) : Bool := isVerbChars text.toList

/-- The verb of an embed that names none. -/
def generic : String := "v"

end Verb

/-! ### Brackets and literals -/

/-- What surrounds a place in source text. -/
structure Nesting where
  /-- The number of open brackets. -/
  depth : Nat := 0
  /-- The quote that opened the literal around the place. -/
  quote : Option Char := none
  /-- A backslash in the literal takes the next character with it. -/
  escaped : Bool := false
deriving DecidableEq

namespace Nesting

/-- The quote of a raw literal, in which a backslash is an ordinary character. -/
def rawQuote : Char := '\x60'

/-- The character opens a literal. -/
def isQuote (c : Char) : Bool := c == '"' || c == '\'' || c == rawQuote

/-- The character opens a bracket. -/
def isOpening (c : Char) : Bool := "([\x7b".toList.contains c

/-- The character closes a bracket. -/
def isClosing (c : Char) : Bool := ")]\x7d".toList.contains c

/-- The place is outside all brackets and literals. -/
def isTop (n : Nesting) : Bool := n.quote.isNone && n.depth == 0

/-- What surrounds the place after a character. -/
def next (n : Nesting) (c : Char) : Nesting :=
  match n.quote with
  | some quote =>
    if n.escaped then { n with escaped := false }
    else if c = '\\' ∧ quote ≠ rawQuote then { n with escaped := true }
    else if c = quote then { n with quote := none }
    else n
  | none =>
    if isQuote c then { n with quote := some c }
    else if isOpening c then { n with depth := n.depth + 1 }
    else if isClosing c then { n with depth := n.depth - 1 }
    else n

/-- The text before and after the first closing parenthesis outside brackets and literals. -/
def closing? (n : Nesting) : List Char → Option (List Char × List Char)
  | [] => none
  | c :: cs =>
    if c = ')' ∧ n.isTop then some ([], cs)
    else
      match (n.next c).closing? cs with
      | some (body, rest) => some (c :: body, rest)
      | none => none

/-- The text before and after the last colon outside brackets and literals. -/
def lastColon? (n : Nesting) : List Char → Option (List Char × List Char)
  | [] => none
  | c :: cs =>
    match (n.next c).lastColon? cs with
    | some (before, after) => some (c :: before, after)
    | none => if c = ':' ∧ n.isTop then some ([], cs) else none

/-- Cutting a text loses only the parenthesis. -/
theorem append_of_closing? {n : Nesting} {cs body rest : List Char}
    (h : n.closing? cs = some (body, rest)) : cs = body ++ ')' :: rest := by
  induction cs generalizing n body rest with
  | nil => simp [closing?] at h
  | cons c cs ih =>
    simp only [closing?] at h
    split at h
    · next hc =>
      cases h
      simp [hc.1]
    · split at h
      · next hcut =>
        cases h
        rw [List.cons_append, ← ih hcut]
      · cases h

/-- What follows the closing parenthesis is shorter than the text. -/
theorem length_lt_of_closing? {n : Nesting} {cs body rest : List Char}
    (h : n.closing? cs = some (body, rest)) : rest.length < cs.length := by
  rw [append_of_closing? h, List.length_append, List.length_cons]
  omega

end Nesting

end Desugar
