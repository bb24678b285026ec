/-!
Text in quotes.

What stands between the quotes of a JSON string is kept as it is written (`Quoted`), with its
escapes checked and not yet resolved.  It need not stand for a text: an escape can name one half
of a surrogate pair and leave out the other.  `Quoted.text?` is the text where there is one, and
`Quoted.ofText` writes a text with as few escapes as there can be.
-/

namespace Clearing

namespace Json

/-- The value of a hexadecimal digit. -/
def hexValue? (c : Char) : Option Nat :=
  if '0' ≤ c ∧ c ≤ '9' then some (c.toNat - '0'.toNat)
  else if 'a' ≤ c ∧ c ≤ 'f' then some (c.toNat - 'a'.toNat + 10)
  else if 'A' ≤ c ∧ c ≤ 'F' then some (c.toNat - 'A'.toNat + 10)
  else none

/-- The value of four hexadecimal digits. -/
def hexValue4? (a b c d : Char) : Option Nat := do
  let a ← hexValue? a
  let b ← hexValue? b
  let c ← hexValue? c
  let d ← hexValue? d
  return ((a * 16 + b) * 16 + c) * 16 + d

/-- The character that a backslash and a letter stand for. -/
def escaped? : Char → Option Char
  | '"' => some '"'
  | '\\' => some '\\'
  | '/' => some '/'
  | 'b' => some '\x08'
  | 'f' => some '\x0c'
  | 'n' => some '\n'
  | 'r' => some '\r'
  | 't' => some '\t'
  | _ => none

/-- Whether a character stands for itself within quotes. -/
def isPlain (c : Char) : Bool :=
  decide (' ' ≤ c) && c != '"' && c != '\\'

/-- Whether characters may stand between quotes. -/
def isQuoted : List Char → Bool
  | [] => true
  | '\\' :: 'u' :: a :: b :: c :: d :: rest => (hexValue4? a b c d).isSome && isQuoted rest
  | '\\' :: c :: rest => (escaped? c).isSome && isQuoted rest
  | c :: rest => isPlain c && isQuoted rest

/-- What stands between the quotes of a string. -/
structure Quoted where
  chars : List Char
  isQuoted : Json.isQuoted chars = true
deriving DecidableEq

namespace Quoted

/-- Admits what may stand between quotes. -/
def ofChars? (cs : List Char) : Option Quoted :=
  if h : Json.isQuoted cs = true then some ⟨cs, h⟩ else none

/-! ### Reading -/

/-- A character, or one half of a surrogate pair. -/
inductive Part where
  | char (c : Char)
  | high (bits : Nat)
  | low (bits : Nat)
deriving DecidableEq

/-- The part that a code of sixteen bits stands for. -/
def Part.ofCode (n : Nat) : Part :=
  if 0xD800 ≤ n ∧ n < 0xDC00 then high (n - 0xD800)
  else if 0xDC00 ≤ n ∧ n < 0xE000 then low (n - 0xDC00)
  else char (Char.ofNat n)

/-- The parts of a quoted text. -/
def parts : List Char → List Part
  | [] => []
  | '\\' :: 'u' :: a :: b :: c :: d :: rest =>
    .ofCode ((hexValue4? a b c d).getD 0) :: parts rest
  | '\\' :: c :: rest => .char ((escaped? c).getD c) :: parts rest
  | c :: rest => .char c :: parts rest

/-- Puts surrogate pairs together; a half on its own stands for nothing. -/
def join : List Part → Option (List Char)
  | [] => some []
  | .char c :: rest => (join rest).map (c :: ·)
  | .high h :: .low l :: rest => (join rest).map (Char.ofNat (0x10000 + h * 0x400 + l) :: ·)
  | _ :: _ => none

/-- The text that the quotes hold, if they hold one. -/
def text? (q : Quoted) : Option String :=
  (join (parts q.chars)).map String.ofList

/-! ### Writing -/

/-- A hexadecimal digit, small letters above nine. -/
def hexDigit (n : Nat) : Char :=
  Char.ofNat (if n < 10 then '0'.toNat + n else 'a'.toNat + (n - 10))

theorem hexValue?_hexDigit {n : Nat} (h : n < 16) : hexValue? (hexDigit n) = some n := by
  have : ∀ m : Fin 16, hexValue? (hexDigit m) = some m.val := by decide
  exact this ⟨n, h⟩

/-- A character as it is written between quotes. -/
def escape (c : Char) : List Char :=
  if c = '"' then ['\\', '"']
  else if c = '\\' then ['\\', '\\']
  else if c = '\x08' then ['\\', 'b']
  else if c = '\x0c' then ['\\', 'f']
  else if c = '\n' then ['\\', 'n']
  else if c = '\r' then ['\\', 'r']
  else if c = '\t' then ['\\', 't']
  else if c < ' ' then
    ['\\', 'u', '0', '0', hexDigit (c.toNat / 16), hexDigit (c.toNat % 16)]
  else [c]

/-- An escaped character can stand in front of anything that may stand between quotes. -/
theorem isQuoted_escape_append (c : Char) {rest : List Char} (h : Json.isQuoted rest = true) :
    Json.isQuoted (escape c ++ rest) = true := by
  unfold escape
  by_cases hq : c = '"'
  · simpa [hq, Json.isQuoted, escaped?] using h
  by_cases hb : c = '\\'
  · simpa [hq, hb, Json.isQuoted, escaped?] using h
  by_cases h8 : c = '\x08'
  · simpa [h8, Json.isQuoted, escaped?] using h
  by_cases hf : c = '\x0c'
  · simpa [hf, Json.isQuoted, escaped?] using h
  by_cases hn : c = '\n'
  · simpa [hn, Json.isQuoted, escaped?] using h
  by_cases hr : c = '\r'
  · simpa [hr, Json.isQuoted, escaped?] using h
  by_cases ht : c = '\t'
  · simpa [ht, Json.isQuoted, escaped?] using h
  by_cases hc : c < ' '
  · have hlt : c.toNat < 32 := hc
    have high := hexValue?_hexDigit (n := c.toNat / 16) (by omega)
    have low := hexValue?_hexDigit (n := c.toNat % 16) (by omega)
    have zero : hexValue? '0' = some 0 := by decide
    simp [hq, hb, h8, hf, hn, hr, ht, hc, Json.isQuoted, hexValue4?, high, low, zero, h]
  · have hp : isPlain c = true := by
      simp [isPlain, hq, hb, Char.not_lt.1 hc]
    simp [hq, hb, h8, hf, hn, hr, ht, hc, Json.isQuoted, hp, h]

/-- A text as it is written between quotes. -/
def ofText (s : String) : Quoted where
  chars := s.toList.flatMap escape
  isQuoted := by
    induction s.toList with
    | nil => rfl
    | cons c rest ih => exact isQuoted_escape_append c ih

end Quoted

end Json

end Clearing
