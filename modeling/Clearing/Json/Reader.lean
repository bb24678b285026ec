import Clearing.Json.Token

/-!
Reading a value from its tokens.

The reader takes one token at a time.  It keeps the arrays and objects that are still open, the
innermost first, and knows what may come next; a token that may not come ends it.  The text is a
value when exactly one value is complete at its end.
-/

namespace Clearing

namespace Json

/-- An open array or object, with what it has so far in reverse. -/
inductive Frame where
  | array (items : List Json)
  /-- The value of `key` is next. -/
  | object (fields : List (Quoted × Json)) (key : Quoted)

/-- What may come next. -/
inductive State where
  /-- A value. -/
  | value (open_ : List Frame)
  /-- The first item of an array, or its end. -/
  | firstItem (open_ : List Frame)
  /-- The first name of an object, or its end. -/
  | firstName (open_ : List Frame)
  /-- A further name of an object. -/
  | name (fields : List (Quoted × Json)) (open_ : List Frame)
  /-- The colon after a name. -/
  | colon (fields : List (Quoted × Json)) (key : Quoted) (open_ : List Frame)
  /-- What follows a complete value: the end of the text, if nothing is open. -/
  | after (v : Json) (open_ : List Frame)

/-- A token where a value is expected. -/
def State.readValue (open_ : List Frame) : Token → Option State
  | .null => some (.after .null open_)
  | .bool b => some (.after (.bool b) open_)
  | .whole negative magnitude => some (.after (.whole negative magnitude) open_)
  | .real r => some (.after (.real r) open_)
  | .string q => some (.after (.string q) open_)
  | .mark .arrayOpen => some (.firstItem open_)
  | .mark .objectOpen => some (.firstName open_)
  | .mark _ => none

/-- Reads a token. -/
def State.read : State → Token → Option State
  | .value open_, t => readValue open_ t
  | .firstItem open_, t =>
    if t = .mark .arrayClose then some (.after (.array []) open_)
    else readValue (.array [] :: open_) t
  | .firstName open_, .mark .objectClose => some (.after (.object []) open_)
  | .firstName open_, .string q => some (.colon [] q open_)
  | .name fields open_, .string q => some (.colon fields q open_)
  | .colon fields key open_, .mark .colon => some (.value (.object fields key :: open_))
  | .after v (.array items :: open_), .mark .comma => some (.value (.array (v :: items) :: open_))
  | .after v (.array items :: open_), .mark .arrayClose =>
    some (.after (.array (v :: items).reverse) open_)
  | .after v (.object fields key :: open_), .mark .comma =>
    some (.name ((key, v) :: fields) open_)
  | .after v (.object fields key :: open_), .mark .objectClose =>
    some (.after (.object ((key, v) :: fields).reverse) open_)
  | _, _ => none

/-- The value that tokens spell. -/
def ofTokens? (ts : List Token) : Option Json :=
  match ts.foldlM State.read (.value []) with
  | some (.after v []) => some v
  | _ => none

/-- The value that a text spells. -/
def ofText? (s : String) : Option Json :=
  (tokens? s.toList).bind ofTokens?

end Json

end Clearing
