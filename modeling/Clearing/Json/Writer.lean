import Clearing.Json.Basic

/-!
Writing values.

On one line, nothing stands between tokens.  Indented, every item and every field has a line of
its own, two spaces deeper than what holds it, and a space follows the colon; an empty array or
object stays on its line.
-/

namespace Clearing

namespace Json

/-- The digits of a whole number with its sign. -/
def wholeChars (negative : Bool) (magnitude : Nat) : List Char :=
  (if negative then ['-'] else []) ++ Nat.toDigits 10 magnitude

/-- A quoted string. -/
def quotedChars (q : Quoted) : List Char :=
  '"' :: q.chars ++ ['"']

/-- The line after which `depth` levels are indented. -/
def newLine (depth : Nat) : List Char :=
  '\n' :: List.replicate (2 * depth) ' '

mutual

/-- A value on one line. -/
def lineChars : Json → List Char
  | .null => ['n', 'u', 'l', 'l']
  | .bool true => ['t', 'r', 'u', 'e']
  | .bool false => ['f', 'a', 'l', 's', 'e']
  | .whole negative magnitude => wholeChars negative magnitude
  | .real r => r.chars
  | .string q => quotedChars q
  | .array [] => ['[', ']']
  | .array (item :: rest) => '[' :: lineChars item ++ lineItems rest
  | .object [] => ['\x7b', '\x7d']
  | .object ((name, value) :: rest) =>
    '\x7b' :: quotedChars name ++ ':' :: lineChars value ++ lineFields rest

/-- The further items of an array, and its end. -/
def lineItems : List Json → List Char
  | [] => [']']
  | item :: rest => ',' :: lineChars item ++ lineItems rest

/-- The further fields of an object, and its end. -/
def lineFields : List (Quoted × Json) → List Char
  | [] => ['\x7d']
  | (name, value) :: rest =>
    ',' :: quotedChars name ++ ':' :: lineChars value ++ lineFields rest

end

mutual

/-- A value with indentation, `depth` levels deep. -/
def indentedChars (depth : Nat) : Json → List Char
  | .null => ['n', 'u', 'l', 'l']
  | .bool true => ['t', 'r', 'u', 'e']
  | .bool false => ['f', 'a', 'l', 's', 'e']
  | .whole negative magnitude => wholeChars negative magnitude
  | .real r => r.chars
  | .string q => quotedChars q
  | .array [] => ['[', ']']
  | .array (item :: rest) =>
    '[' :: newLine (depth + 1) ++ indentedChars (depth + 1) item ++ indentedItems depth rest
  | .object [] => ['\x7b', '\x7d']
  | .object ((name, value) :: rest) =>
    '\x7b' :: newLine (depth + 1) ++ quotedChars name ++ ':' :: ' ' ::
      indentedChars (depth + 1) value ++ indentedFields depth rest

/-- The further items of an array, and its end. -/
def indentedItems (depth : Nat) : List Json → List Char
  | [] => newLine depth ++ [']']
  | item :: rest =>
    ',' :: newLine (depth + 1) ++ indentedChars (depth + 1) item ++ indentedItems depth rest

/-- The further fields of an object, and its end. -/
def indentedFields (depth : Nat) : List (Quoted × Json) → List Char
  | [] => newLine depth ++ ['\x7d']
  | (name, value) :: rest =>
    ',' :: newLine (depth + 1) ++ quotedChars name ++ ':' :: ' ' ::
      indentedChars (depth + 1) value ++ indentedFields depth rest

end

/-- The text of a value on one line. -/
def line (v : Json) : String :=
  String.ofList v.lineChars

/-- The text of a value with indentation. -/
def indented (v : Json) : String :=
  String.ofList (v.indentedChars 0)

end Json

end Clearing
