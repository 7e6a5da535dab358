import Desugar.Decimal.Shortest
import Desugar.Fault
import Desugar.Text
import Desugar.Tree

/-!
# The text of constants

Integers, strings, runes, truth values and nil are written as usual. A floating-point number is
written with the fewest digits that read back: positionally, with at least one digit after the
point, from `1e-4` up to below `1e16`, and otherwise in scientific notation.
-/

namespace Desugar.Emit

/-- `count` zeros. -/
def zeros (count : Nat) : List Char := List.replicate count '0'

/-- Digits with a point behind the first `whole` of them, with zeros where there are none. -/
def positional (digits : List Char) (whole : Int) : List Char :=
  let front := match whole with
    | .ofNat (n + 1) => digits.take (n + 1) ++ zeros (n + 1 - digits.length)
    | _ => ['0']
  let back := zeros (-whole).toNat ++ digits.drop whole.toNat
  front ++ '.' :: if back.isEmpty then ['0'] else back

/-- Digits with a point behind the first, and an exponent. -/
def scientific (digits : List Char) (exponent : Int) : List Char :=
  let mantissa := match digits with
    | first :: second :: rest => first :: '.' :: second :: rest
    | digits => digits
  mantissa ++ 'e' :: (toString exponent).toList

/-- The magnitude of a finite number. -/
def magnitude (bits : UInt64) : List Char :=
  if Decimal.isZero bits then ['0', '.', '0']
  else
    let decimal := Decimal.shortest bits
    let digits := Nat.toDigits 10 decimal.coefficient
    let whole := digits.length + decimal.exponent
    if -4 < whole ∧ whole ≤ 16 then positional digits whole
    else scientific digits (whole - 1)

/-- A finite floating-point number. -/
def float (value : Binary64) : String :=
  let sign := if Decimal.isNegative value.bits then ['-'] else []
  String.ofList (sign ++ magnitude value.bits)

/-- A constant. -/
def literal (value : Literal) (span : Span) : Except Fault String :=
  match value with
  | .int value => .ok (toString value)
  | .float value =>
    if Decimal.isFinite value.bits then .ok (float value) else .error ⟨.nonFinite, span⟩
  | .string value => .ok (Quoted.string value)
  | .rune value => .ok (Quoted.rune value)
  | .bool true => .ok "true"
  | .bool false => .ok "false"
  | .nil => .ok "nil"

end Desugar.Emit
