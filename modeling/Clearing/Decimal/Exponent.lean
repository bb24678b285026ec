import Clearing.Decimal.Text

/-!
Decimals written with an exponent.

The text is that of a decimal, the letter `e` or `E`, and how many places the point moves: to the
right, or to the left after a minus sign.  The point may move by up to 28 places.  To the right
it uses up decimals first, and past the last of them the number must stay a whole number that
fits.  To the left it makes decimals, and those for which there is no room are rounded away, a
half away from zero.
-/

namespace Clearing

namespace Decimal

/-- The decimal with its point moved to the right.  Up to as many places as there are decimals,
every digit stays; beyond that the result has none. -/
def moveRight? (d : Decimal) (places : Nat) : Option Decimal :=
  if places ≤ d.scale then ofParts? d.negative d.coeff (d.scale - places)
  else if places ≤ maxScale then
    ofParts? d.negative (d.coeff * tenPow (places - d.scale)) 0
  else none

/-- The decimal with its point moved to the left. -/
def moveLeft? (d : Decimal) (places : Nat) : Option Decimal :=
  if maxScale < places then none
  else if d.scale + places ≤ maxScale then
    ofParts? d.negative d.coeff (d.scale + places)
  else
    let cell := tenPow (d.scale + places - maxScale)
    ofParts? d.negative ((d.coeff + cell / 2) / cell) maxScale

/-- A number of places: digits, after a plus sign or none. -/
def places? (cs : List Char) : Option Nat :=
  let digits :=
    match cs with
    | '+' :: rest => rest
    | _ => cs
  if digits.isEmpty then none
  else
    digits.foldlM (fun n c => (digitValue? c).map (n * 10 + ·)) 0

/-- Whether a character starts an exponent. -/
def isExponentMark (c : Char) : Bool :=
  c == 'e' || c == 'E'

/-- Reads a decimal with an exponent. -/
def ofExponentChars? (cs : List Char) : Option Decimal := do
  let d ← ofChars? (cs.takeWhile fun c => !isExponentMark c)
  match cs.dropWhile fun c => !isExponentMark c with
  | _ :: '-' :: rest => (places? rest).bind d.moveLeft?
  | _ :: rest => (places? rest).bind d.moveRight?
  | [] => none

/-- Reads a decimal with or without an exponent. -/
def ofNotation? (s : String) : Option Decimal :=
  (ofText? s).or (ofExponentChars? s.toList)

end Decimal

end Clearing
