import Clearing.Json.Text

/-!
JSON values.

An object keeps its fields in the order they are written, repeated names and all, because what a
repetition means is for whoever reads the object to say.  Whole numbers are kept as such, and
`-0` is told from `0`; a number with a fraction or an exponent is kept as it is written.
-/

namespace Clearing

namespace Json

/-- The digits before the point: none in front of them is zero, unless it is the only one. -/
def isWhole (digits : List Char) : Bool :=
  !digits.isEmpty && digits.all Char.isDigit && (digits.head? != some '0' || digits.length == 1)

/-- Whether characters are an exponent: its letter, a sign or none, and digits. -/
def isExponent : List Char → Bool
  | [] => false
  | e :: rest =>
    (e == 'e' || e == 'E') &&
      let digits :=
        match rest with
        | '+' :: digits => digits
        | '-' :: digits => digits
        | digits => digits
      !digits.isEmpty && digits.all Char.isDigit

/-- Whether characters are what can follow the whole part of a number: a fraction with an exponent
or none, or an exponent alone. -/
def isTail : List Char → Bool
  | '.' :: rest =>
    let digits := rest.takeWhile Char.isDigit
    let exponent := rest.dropWhile Char.isDigit
    !digits.isEmpty && (exponent.isEmpty || isExponent exponent)
  | rest => isExponent rest

/-- The characters of a number without those of its sign. -/
def unsigned : List Char → List Char
  | '-' :: rest => rest
  | cs => cs

/-- Whether characters are a number with a fraction or an exponent. -/
def isReal (cs : List Char) : Bool :=
  let body := unsigned cs
  isWhole (body.takeWhile Char.isDigit) && isTail (body.dropWhile Char.isDigit)

/-- A number with a fraction or an exponent, as it is written. -/
structure Real where
  chars : List Char
  isReal : Json.isReal chars = true
deriving DecidableEq

end Json

/-- A JSON value. -/
inductive Json where
  | null
  | bool (b : Bool)
  | whole (negative : Bool) (magnitude : Nat)
  | real (r : Json.Real)
  | string (q : Json.Quoted)
  | array (items : List Json)
  | object (fields : List (Json.Quoted × Json))

namespace Json

instance : Inhabited Json := ⟨null⟩

/-- The string that holds a text. -/
def ofText (s : String) : Json :=
  string (.ofText s)

/-- A whole number. -/
def ofInt (n : Int) : Json :=
  whole (decide (n < 0)) n.natAbs

/-- A whole number that is not negative. -/
def ofNat (n : Nat) : Json :=
  whole false n

/-- An object with these fields. -/
def ofFields (fields : List (String × Json)) : Json :=
  object (fields.map fun f => (.ofText f.1, f.2))

end Json

end Clearing
