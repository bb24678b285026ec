import Clearing.Json.Basic

/-!
The tokens of JSON text.

Text is cut into tokens in one pass.  Between strings, marks and white space end a run of other
characters, and a run must be a word or a number; within a string, only the closing quote ends
it.  So two words or numbers are never next to each other without a mark or white space between
them, and a text is refused as soon as one of its runs or strings is no token.
-/

namespace Clearing

namespace Json

/-- The marks that structure a value. -/
inductive Mark where
  | arrayOpen
  | arrayClose
  | objectOpen
  | objectClose
  | colon
  | comma
deriving DecidableEq

/-- The character of a mark. -/
def Mark.char : Mark → Char
  | arrayOpen => '['
  | arrayClose => ']'
  | objectOpen => '\x7b'
  | objectClose => '\x7d'
  | colon => ':'
  | comma => ','

/-- The mark that a character is. -/
def Mark.ofChar? (c : Char) : Option Mark :=
  [arrayOpen, arrayClose, objectOpen, objectClose, colon, comma].find? (·.char = c)

/-- A token. -/
inductive Token where
  | mark (m : Mark)
  | null
  | bool (b : Bool)
  | whole (negative : Bool) (magnitude : Nat)
  | real (r : Real)
  | string (q : Quoted)
deriving DecidableEq

/-- The white space that may stand between tokens. -/
def isSpace (c : Char) : Bool :=
  c == ' ' || c == '\t' || c == '\n' || c == '\r'

/-- The value of decimal digits. -/
def digitsValue (digits : List Char) : Nat :=
  digits.foldl (fun n c => n * 10 + (c.toNat - '0'.toNat)) 0

/-- The number that characters are. -/
def Token.ofNumber? (cs : List Char) : Option Token :=
  let body := unsigned cs
  if isWhole body then some (whole (cs.head? == some '-') (digitsValue body))
  else if h : isReal cs = true then some (real ⟨cs, h⟩)
  else none

/-- The word or number that a run of characters is. -/
def Token.ofRun? (cs : List Char) : Option Token :=
  if cs = ['n', 'u', 'l', 'l'] then some null
  else if cs = ['t', 'r', 'u', 'e'] then some (bool true)
  else if cs = ['f', 'a', 'l', 's', 'e'] then some (bool false)
  else ofNumber? cs

/-- Where a scan stands: after a run of characters, which may be empty, or within a string.  Both
keep what they have seen in reverse. -/
inductive Scan where
  | run (seen : List Char)
  | quoted (seen : List Char) (escaping : Bool)

/-- Ends a run in front of further tokens. -/
def endRun (seen : List Char) (rest : Option (List Token)) : Option (List Token) :=
  if seen.isEmpty then rest
  else do
    let token ← Token.ofRun? seen.reverse
    let rest ← rest
    return token :: rest

/-- The tokens of a text, from where a scan stands. -/
def scan : Scan → List Char → Option (List Token)
  | .run seen, [] => endRun seen (some [])
  | .run seen, c :: rest =>
    if isSpace c then endRun seen (scan (.run []) rest)
    else if c = '"' then endRun seen (scan (.quoted [] false) rest)
    else
      match Mark.ofChar? c with
      | some mark => endRun seen ((scan (.run []) rest).map (.mark mark :: ·))
      | none => scan (.run (c :: seen)) rest
  | .quoted _ _, [] => none
  | .quoted seen true, c :: rest => scan (.quoted (c :: seen) false) rest
  | .quoted seen false, c :: rest =>
    if c = '"' then do
      let q ← Quoted.ofChars? seen.reverse
      let rest ← scan (.run []) rest
      return .string q :: rest
    else scan (.quoted (c :: seen) (c == '\\')) rest

/-- The tokens of a text. -/
def tokens? (cs : List Char) : Option (List Token) :=
  scan (.run []) cs

end Json

end Clearing
