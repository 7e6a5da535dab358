/-!
# Characters and literals

Blanks are the characters with the Unicode property White_Space. Digits are those of a given base up
to sixteen.

A backslash in a string literal starts an escape: a letter that stands for a control character,
the backslash or the quote itself, three octal digits, or `x`, `u` or `U` with two, four or eight
hexadecimal digits. An octal or `x` escape stands for a byte, and a byte above `7F` is no
character.

In the string and rune literals of the base language, the quote itself, the backslash and all
control characters are written as escapes; every other character stands for itself.
-/

namespace Desugar

namespace Blank

/-- The code points with the property White_Space, as inclusive ranges in order. -/
def ranges : List (Nat × Nat) :=
  [(0x9, 0xD), (0x20, 0x20), (0x85, 0x85), (0xA0, 0xA0), (0x1680, 0x1680), (0x2000, 0x200A),
    (0x2028, 0x2029), (0x202F, 0x202F), (0x205F, 0x205F), (0x3000, 0x3000)]

/-- The character is a blank. -/
def isBlank (c : Char) : Bool := ranges.any fun (first, last) => first ≤ c.toNat && c.toNat ≤ last

/-- A text without the blanks at its start. -/
def trimStart (cs : List Char) : List Char := cs.dropWhile isBlank

/-- A text without the blanks at its ends. -/
def trim (cs : List Char) : List Char := (trimStart (trimStart cs).reverse).reverse

end Blank

namespace Digit

/-- The value of a digit in the given base; letters of either case stand for ten and up. -/
def value? (base : Nat) (c : Char) : Option Nat :=
  let n :=
    if '0' ≤ c ∧ c ≤ '9' then c.toNat - '0'.toNat
    else if 'a' ≤ c ∧ c ≤ 'f' then c.toNat - 'a'.toNat + 10
    else if 'A' ≤ c ∧ c ≤ 'F' then c.toNat - 'A'.toNat + 10
    else base
  if n < base then some n else none

/-- The lower-case hexadecimal digit of a number below sixteen. -/
def ofNat (n : Nat) : Char := if n < 10 then Char.ofNat (48 + n) else Char.ofNat (87 + n)

/-- The last `width` hexadecimal digits of a number, the most significant first. -/
def hex : (width n : Nat) → List Char
  | 0, _ => []
  | width + 1, n => hex width (n / 16) ++ [ofNat (n % 16)]

end Digit

namespace Escape

/-- Reads `count` digits after the number read so far. A number that is cut short by another
character gives nothing; the characters that are left follow in either case. -/
def digits (base : Nat) : (count value : Nat) → List Char → Option Nat × List Char
  | 0, value, cs => (some value, cs)
  | _ + 1, _, [] => (none, [])
  | count + 1, value, c :: cs =>
    match Digit.value? base c with
    | some d => digits base count (value * base + d) cs
    | none => (none, c :: cs)

/-- The character with a code, if there is one and it is at most `limit`. -/
def charOf? (limit value : Nat) : Option Char :=
  if value ≤ limit ∧ value.isValidChar then some (Char.ofNat value) else none

/-- The greatest code of a byte escape. -/
def byteLimit : Nat := 0x7F

/-- The greatest code of all. -/
def codeLimit : Nat := 0x10FFFF

/-- The escapes that consist of a single character. -/
def simple? : Char → Option Char
  | 'a' => some '\x07'
  | 'b' => some '\x08'
  | 'f' => some '\x0c'
  | 'n' => some '\n'
  | 'r' => some '\r'
  | 't' => some '\t'
  | 'v' => some '\x0b'
  | '\\' => some '\\'
  | '"' => some '"'
  | _ => none

/-- The base, the number of further digits, the value so far and the greatest code of a numeric
escape. -/
def numeric? : Char → Option (Nat × Nat × Nat × Nat)
  | 'x' => some (16, 2, 0, byteLimit)
  | 'u' => some (16, 4, 0, codeLimit)
  | 'U' => some (16, 8, 0, codeLimit)
  | c => (Digit.value? 8 c).map fun d => (8, 2, d, byteLimit)

/-- Decodes the escape whose first character after the backslash is given, and returns the
characters after it. -/
def decode (first : Char) (cs : List Char) : Option Char × List Char :=
  match simple? first with
  | some c => (some c, cs)
  | none =>
    match numeric? first with
    | some (base, count, value, limit) =>
      let (value?, rest) := digits base count value cs
      (value?.bind (charOf? limit), rest)
    | none => (none, cs)

/-- Reading digits never gives back more than there was. -/
theorem length_digits_le (base count value : Nat) (cs : List Char) :
    (digits base count value cs).2.length ≤ cs.length := by
  induction count generalizing value cs with
  | zero => simp [digits]
  | succ count ih =>
    cases cs with
    | nil => simp [digits]
    | cons c cs =>
      simp only [digits]
      split
      · exact Nat.le_succ_of_le (ih _ cs)
      · exact Nat.le_refl _

/-- Decoding never gives back more than there was. -/
theorem length_decode_le (first : Char) (cs : List Char) :
    (decode first cs).2.length ≤ cs.length := by
  unfold decode
  split
  · exact Nat.le_refl _
  · split
    · exact length_digits_le ..
    · exact Nat.le_refl _

end Escape

namespace Quoted

/-- The character cannot be written as it is: a control character. -/
def isControl (c : Char) : Bool := c.toNat < 0x20 || c.toNat == 0x7F

/-- A character as it is written between two quotes. -/
def escape (quote c : Char) : List Char :=
  match c with
  | '\\' => ['\\', '\\']
  | '\n' => ['\\', 'n']
  | '\t' => ['\\', 't']
  | '\r' => ['\\', 'r']
  | c =>
    if c = quote then ['\\', c]
    else if isControl c then '\\' :: 'x' :: Digit.hex 2 c.toNat
    else [c]

/-- A text as it is written between two quotes. -/
def body (quote : Char) (cs : List Char) : List Char := cs.flatMap (escape quote)

/-- A string literal. -/
def string (text : String) : String := String.ofList ('"' :: body '"' text.toList ++ ['"'])

/-- A rune literal. -/
def rune (c : Char) : String := String.ofList ('\'' :: escape '\'' c ++ ['\''])

end Quoted

end Desugar
