import Clearing.Decimal.Basic

/-!
How decimals are written and read.

Written: a minus sign where the number carries one, then all digits of the coefficient with
`scale` of them behind the point, at least one before it.  Trailing zeros are digits like any
other, so what is written shows the scale.

Read: a sign or none, then digits with at most one point among them, at the front and at the end
too, and at least one digit.  Underscores may separate digits.  A number whose whole part does
not fit is refused.  Decimals that do not fit are rounded away: the first of them decides, five
and above upward, and only digits and separators may come after it.
-/

namespace Clearing

namespace Decimal

/-- The digits of a number, with zeros in front up to `width`. -/
def paddedDigits (width n : Nat) : List Char :=
  let digits := Nat.toDigits 10 n
  List.replicate (width - digits.length) '0' ++ digits

/-- The digits of a coefficient, `scale` of them behind the point. -/
def pointed (coeff scale : Nat) : List Char :=
  let digits := paddedDigits (scale + 1) coeff
  let whole := digits.take (digits.length - scale)
  let decimals := digits.drop (digits.length - scale)
  whole ++ (if scale = 0 then [] else '.' :: decimals)

/-- The characters a decimal is written with. -/
def chars (d : Decimal) : List Char :=
  (if d.negative then ['-'] else []) ++ pointed d.coeff d.scale

/-- The text of a decimal. -/
def text (d : Decimal) : String :=
  String.ofList d.chars

instance : ToString Decimal := ⟨text⟩

/-! ### Reading -/

/-- The value of an ASCII digit. -/
def digitValue? (c : Char) : Option Nat :=
  if '0' ≤ c ∧ c ≤ '9' then some (c.toNat - '0'.toNat) else none

/-- What has been read of a number: its digits, how many are decimals, and what was seen. -/
structure Reading where
  coeff : Nat
  scale : Nat
  pointSeen : Bool
  digitSeen : Bool

/-- Rounds by the first digit that does not fit, if nothing but digits and separators is behind
it. -/
def Reading.roundBy (r : Reading) (digit : Nat) (rest : List Char) : Option (Nat × Nat) :=
  if rest.all (fun c => c == '_' || c.isDigit) then
    if digit < 5 then some (r.coeff, r.scale)
    else if r.coeff + 1 < coeffBound then some (r.coeff + 1, r.scale)
    else if r.scale = 0 then none
    else some ((r.coeff + 5) / 10, r.scale - 1)
  else none

/-- From this coefficient on a number is long. -/
abbrev longCoeff : Nat := 18446744073709549060

/-- Rounds where no further digit fits.  A separator there is passed over in a long number, up to
the digit that decides; in a short one it stands for a zero. -/
def Reading.roundOff (r : Reading) (c : Char) (rest : List Char) : Option (Nat × Nat) :=
  if c ≠ '_' then (digitValue? c).bind fun digit => r.roundBy digit rest
  else if r.coeff < longCoeff then r.roundBy 0 rest
  else
    match rest.dropWhile (· == '_') with
    | [] => some (r.coeff, r.scale)
    | c :: rest => (digitValue? c).bind fun digit => r.roundBy digit rest

/-- Reads digits, point and separators up to the end, or up to the first digit that does not fit. -/
def Reading.finish (r : Reading) : List Char → Option (Nat × Nat)
  | [] => if r.digitSeen then some (r.coeff, r.scale) else none
  | c :: rest =>
    if r.pointSeen ∧ r.scale = maxScale then r.roundOff c rest
    else
      match digitValue? c with
      | some digit =>
        let coeff := r.coeff * 10 + digit
        if coeff < coeffBound then
          let scale := if r.pointSeen then r.scale + 1 else r.scale
          Reading.finish { r with coeff := coeff, scale := scale, digitSeen := true } rest
        else if r.pointSeen then r.roundOff c rest
        else none
      | none =>
        if c = '.' ∧ r.pointSeen = false then
          Reading.finish { r with pointSeen := true } rest
        else if c = '_' ∧ r.digitSeen then Reading.finish r rest
        else none

/-- Reads a number without sign as coefficient and scale. -/
def unsignedParts? (cs : List Char) : Option (Nat × Nat) :=
  Reading.finish ⟨0, 0, false, false⟩ cs

/-- Reads a decimal; a zero never takes a minus sign from its text. -/
def ofChars? (cs : List Char) : Option Decimal :=
  let (negative, body) :=
    match cs with
    | '-' :: rest => (true, rest)
    | '+' :: rest => (false, rest)
    | _ => (false, cs)
  (unsignedParts? body).bind fun (coeff, scale) =>
    ofParts? (negative && coeff != 0) coeff scale

/-- Reads the text of a decimal. -/
def ofText? (s : String) : Option Decimal :=
  ofChars? s.toList

/-- The decimal of a whole number within the bound. -/
def ofInt? (n : Int) : Option Decimal :=
  ofParts? (decide (n < 0)) n.natAbs 0

end Decimal

end Clearing
