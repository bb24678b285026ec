import Clearing.Json.Text

/-!
A text survives its quotes.

Each character is escaped on its own, and what it is escaped to stands for that character whatever
comes after it (`parts_escape_append`).  So the parts of a quoted text are its characters one by
one, none of them is half of a surrogate pair, and putting them together gives the text back.
-/

namespace Clearing

namespace Json

namespace Quoted

/-- A character below the surrogates is the part that its code stands for. -/
theorem Part.ofCode_toNat {c : Char} (h : c.toNat < 0xD800) : Part.ofCode c.toNat = .char c := by
  unfold Part.ofCode
  rw [if_neg (by omega), if_neg (by omega), Char.ofNat_toNat]

/-- The four digits that a character is escaped to, where it has no letter of its own. -/
theorem hexValue4?_hexDigits {n : Nat} (h : n < 256) :
    hexValue4? '0' '0' (hexDigit (n / 16)) (hexDigit (n % 16)) = some n := by
  have zero : hexValue? '0' = some 0 := by decide
  simp only [hexValue4?, zero, hexValue?_hexDigit (show n / 16 < 16 by omega),
    hexValue?_hexDigit (show n % 16 < 16 by omega), Option.bind_eq_bind, Option.bind_some,
    Option.pure_def, Option.some.injEq]
  omega

/-- An escaped character stands for itself in front of anything. -/
theorem parts_escape_append (c : Char) (rest : List Char) :
    parts (escape c ++ rest) = .char c :: parts rest := by
  unfold escape
  by_cases hq : c = '"'
  · simp [hq, parts, escaped?]
  by_cases hb : c = '\\'
  · simp [hb, parts, escaped?]
  by_cases h8 : c = '\x08'
  · simp [h8, parts, escaped?]
  by_cases hf : c = '\x0c'
  · simp [hf, parts, escaped?]
  by_cases hn : c = '\n'
  · simp [hn, parts, escaped?]
  by_cases hr : c = '\r'
  · simp [hr, parts, escaped?]
  by_cases ht : c = '\t'
  · simp [ht, parts, escaped?]
  rw [if_neg hq, if_neg hb, if_neg h8, if_neg hf, if_neg hn, if_neg hr, if_neg ht]
  by_cases hc : c < ' '
  · have hlt : c.toNat < 32 := hc
    rw [if_pos hc]
    simp only [List.cons_append, List.nil_append, parts,
      hexValue4?_hexDigits (show c.toNat < 256 by omega), Option.getD_some,
      Part.ofCode_toNat (show c.toNat < 0xD800 by omega)]
  · rw [if_neg hc]
    simp [parts, hb]

theorem parts_flatMap_escape (cs : List Char) :
    parts (cs.flatMap escape) = cs.map .char := by
  induction cs with
  | nil => rfl
  | cons c rest ih => rw [List.flatMap_cons, parts_escape_append, ih, List.map_cons]

theorem join_map_char (cs : List Char) : join (cs.map .char) = some cs := by
  induction cs with
  | nil => rfl
  | cons c rest ih => rw [List.map_cons, join, ih, Option.map_some]

/-- **A quoted text is read as the text that was quoted.** -/
@[simp] theorem text?_ofText (s : String) : (ofText s).text? = some s := by
  unfold text? ofText
  rw [parts_flatMap_escape, join_map_char, Option.map_some, String.ofList_toList]

end Quoted

end Json

end Clearing
