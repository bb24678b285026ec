import Clearing.Decimal.Exponent
import Clearing.Double.Shortest
import Clearing.Json.Number
import Clearing.Json.Reader
import Clearing.Table

/-!
Values of a type as JSON.

A `Codec` writes the values of a type and reads them back.  Reading is strict about what a value
is and lenient about how a record is laid out: a record is an object, whose unknown fields are
skipped, or an array of all its fields in order.  A field may be left out only where its type
says what it then holds.

Types are built up from these: numbers within their width, text, lists, maps, records, and
choices between names.
-/

namespace Clearing

open Json (Quoted)

/-- How the values of a type are written and read. -/
class Codec (α : Type) where
  encode : α → Json
  decode : Json → Option α
  /-- What a field holds that is left out, if it may be. -/
  absent : Option α := none

/-- The value of a type as JSON. -/
def Json.of {α : Type} [Codec α] (a : α) : Json :=
  Codec.encode a

/-- The value of a type that is spelled by a text. -/
def Codec.ofText? {α : Type} [Codec α] (s : String) : Option α :=
  (Json.ofText? s).bind Codec.decode

namespace Codec

variable {α β : Type}

/-- The codec of a type whose values wrap those of another. -/
@[reducible]
def wrapping [Codec α] (wrap : α → β) (unwrap : β → α) : Codec β where
  encode b := encode (unwrap b)
  decode j := (decode j).map wrap

/-! ### Numbers, truth values and text -/

/-- The integer that a whole number is; `-0` is none. -/
def int? : Json → Option Int
  | .whole false n => some n
  | .whole true n => if n = 0 then none else some (-(n : Int))
  | _ => none

/-- The integer that a whole number is, if it is within the bounds. -/
def intWithin? (low high : Int) (j : Json) : Option Int :=
  (int? j).filter fun n => decide (low ≤ n ∧ n ≤ high)

/-- A natural number is read where it fits into 64 bits. -/
instance : Codec Nat where
  encode n := .ofNat n
  decode j := (intWithin? 0 18446744073709551615 j).map Int.toNat

instance : Codec UInt32 where
  encode n := .ofNat n.toNat
  decode j := (intWithin? 0 4294967295 j).map fun n => UInt32.ofNat n.toNat

instance : Codec UInt64 where
  encode n := .ofNat n.toNat
  decode j := (intWithin? 0 18446744073709551615 j).map fun n => UInt64.ofNat n.toNat

instance : Codec Int32 where
  encode n := .ofInt n.toInt
  decode j := (intWithin? (-2147483648) 2147483647 j).map Int32.ofInt

instance : Codec Int64 where
  encode n := .ofInt n.toInt
  decode j := (intWithin? (-9223372036854775808) 9223372036854775807 j).map Int64.ofInt

instance : Codec Bool where
  encode b := .bool b
  decode
    | .bool b => some b
    | _ => none

/-- The text of a string. -/
def text? : Json → Option String
  | .string q => q.text?
  | _ => none

instance : Codec String where
  encode s := .ofText s
  decode := text?

/-- The decimal that a number is: a whole number within 64 bits is exact, and any other is the
shortest decimal of the floating-point number it is read as. -/
def decimalOfNumber? (j : Json) : Option Decimal :=
  match intWithin? (-9223372036854775808) 18446744073709551615 j with
  | some n => Decimal.ofInt? n
  | none =>
    (Json.double? j).bind fun (negative, x) =>
      Decimal.ofChars? (if negative then '-' :: x.chars else x.chars)

/-- A decimal is written as its text, so that its scale survives.  A text with an exponent is
read too, and a number. -/
instance : Codec Decimal where
  encode d := .ofText d.text
  decode
    | .string q => q.text?.bind Decimal.ofNotation?
    | j => decimalOfNumber? j

/-! ### Containers -/

/-- What is left out of a record is none. -/
instance [Codec α] : Codec (Option α) where
  encode
    | some a => encode a
    | none => .null
  decode
    | .null => some none
    | j => (decode j).map some
  absent := some none

instance [Codec α] : Codec (List α) where
  encode as := .array (as.map encode)
  decode
    | .array items => items.mapM decode
    | _ => none

/-- A set is a list in which the order and repetitions mean nothing. -/
@[reducible]
def keySet {κ : Type} [Key κ] [Codec κ] : Codec (KeySet κ) where
  encode s := encode s.keys
  decode j := (decode j : Option (List κ)).map KeySet.ofList

/-- How keys are written as names of fields. -/
class KeyCodec (κ : Type) where
  encodeKey : κ → Quoted
  decodeKey : Quoted → Option κ

open KeyCodec in
/-- A map is an object; of two fields with one key, the later counts. -/
instance {κ : Type} [Key κ] [KeyCodec κ] [Codec α] : Codec (Table κ α) where
  encode t := .object (t.entries.map fun e => (encodeKey e.1, encode e.2))
  decode
    | .object fields =>
      (fields.mapM fun f : Quoted × Json => do
        let key ← decodeKey f.1
        let value ← decode f.2
        return (key, value)).map Table.ofEntries
    | _ => none

/-- A number as a name: its digits, without any escape. -/
@[reducible]
def numberKey [Codec α] (wrap : α → β) (unwrap : β → Nat) : KeyCodec β where
  encodeKey b := .ofText (toString (unwrap b))
  decodeKey q :=
    match Json.Token.ofNumber? q.chars with
    | some (.whole negative magnitude) => (decode (.whole negative magnitude)).map wrap
    | _ => none

/-! ### Choices -/

/-- The name of a case in a list of names. -/
def nameOf [DecidableEq α] (names : List (String × α)) (a : α) : String :=
  ((names.find? (·.2 = a)).map (·.1)).getD ""

/-- The case of a name in a list of names. -/
def ofName? (names : List (String × α)) (name : String) : Option α :=
  (names.find? (·.1 = name)).map (·.2)

/-- A choice between names alone.  A name can also be read as the only field of an object, with
nothing under it. -/
@[reducible]
def choice [DecidableEq α] (names : List (String × α)) : Codec α where
  encode a := .ofText (nameOf names a)
  decode
    | .string q => q.text?.bind (ofName? names)
    | .object [(q, .null)] => q.text?.bind (ofName? names)
    | _ => none

/-- A choice between names, as names of fields. -/
@[reducible]
def choiceKey [DecidableEq α] (names : List (String × α)) : KeyCodec α where
  encodeKey a := .ofText (nameOf names a)
  decodeKey q := q.text?.bind (ofName? names)

/-- A case with what it holds. -/
def case_ [Codec α] (name : String) (a : α) : Json :=
  .ofFields [(name, encode a)]

/-- The name of a case, and what it holds. -/
def caseOf? : Json → Option (String × Json)
  | .object [(q, j)] => q.text?.map fun name => (name, j)
  | _ => none

/-! ### Records -/

/-- A record with these fields. -/
def record (names : List String) (values : List Json) : Json :=
  .ofFields (names.zip values)

/-- What a record has under each of the names of its fields, in their order. -/
def fieldsOf? (names : List String) : Json → Option (List (Option Json))
  | .object fields => do
    let named ← fields.mapM fun f => f.1.text?.map fun name => (name, f.2)
    names.mapM fun name =>
      match named.filter (·.1 = name) with
      | [] => some none
      | [f] => some (some f.2)
      | _ => none
  | .array items => if items.length = names.length then some (items.map some) else none
  | _ => none

/-- The value of a field. -/
def field [Codec α] : Option Json → Option α
  | some j => decode j
  | none => absent

end Codec

end Clearing
