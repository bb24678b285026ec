import Clearing.Double.Basic
import Clearing.Json.Token

/-!
Numbers as binary floating-point numbers.

A number is taken as leading digits that fit 64 bits and a power of ten.  The digits of the whole
part are taken while they fit, and the rest of it only counts places; then those behind the point
are taken in the same way, and the rest of them is dropped.  So a number with more digits is not
always read as the nearest there is.
-/

namespace Clearing

namespace Json

/-- Takes digits behind those of `n` while the whole fits 64 bits: what they make, and the digits
left over. -/
def takeFitting (n : Nat) : List Char → Nat × List Char
  | [] => (n, [])
  | c :: rest =>
    let next := n * 10 + (c.toNat - '0'.toNat)
    if next < 18446744073709551616 then takeFitting next rest else (n, c :: rest)

/-- The value of an exponent, or zero where there is none. -/
def exponentValue : List Char → Int
  | _ :: '-' :: digits => -(digitsValue digits : Int)
  | _ :: '+' :: digits => digitsValue digits
  | _ :: digits => digitsValue digits
  | [] => 0

/-- The leading digits of a number without sign, and the power of ten they are multiplied by. -/
def leading (body : List Char) : Nat × Int :=
  let (n, left) := takeFitting 0 (body.takeWhile Char.isDigit)
  match body.dropWhile Char.isDigit with
  | '.' :: rest =>
    let decimals := rest.takeWhile Char.isDigit
    let (n', left') := takeFitting n decimals
    (n', left.length - (decimals.length - left'.length : Nat) +
      exponentValue (rest.dropWhile Char.isDigit))
  | rest => (n, left.length + exponentValue rest)

/-- The floating-point number that a number without sign is read as, if it is not too large. -/
def doubleOf? (body : List Char) : Option Double :=
  let (n, exponent) := leading body
  if 0 ≤ exponent then (Double.ofNat n).timesPowerOfTen? exponent.toNat
  else some ((Double.ofNat n).overPowerOfTen exponent.natAbs)

/-- The sign and the floating-point number that a number is read as. -/
def double? : Json → Option (Bool × Double)
  | .whole negative magnitude =>
    (doubleOf? (Nat.toDigits 10 magnitude)).map fun x => (negative, x)
  | .real r => (doubleOf? (unsigned r.chars)).map fun x => (r.chars.head? == some '-', x)
  | _ => none

end Json

end Clearing
