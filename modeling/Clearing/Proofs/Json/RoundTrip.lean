import Clearing.Json.Reader
import Clearing.Proofs.Json.Spelling

/-!
Reading what was written.

Between a value and its text stand its tokens (`tokens`).  Both texts of a value, the one on a line
and the one with indentation, spell the same tokens, and the reader takes these back to the value.
No value is left out: `-0`, a number in any notation, a string with any escapes, an object that
repeats a name.
-/

namespace Clearing

namespace Json

/-! ### The tokens of a value -/

mutual

/-- The tokens that a value is written in. -/
def tokens : Json → List Token
  | .null => [.null]
  | .bool b => [.bool b]
  | .whole negative magnitude => [.whole negative magnitude]
  | .real r => [.real r]
  | .string q => [.string q]
  | .array [] => [.mark .arrayOpen, .mark .arrayClose]
  | .array (item :: rest) => .mark .arrayOpen :: (tokens item ++ itemTokens rest)
  | .object [] => [.mark .objectOpen, .mark .objectClose]
  | .object ((name, value) :: rest) =>
    .mark .objectOpen :: .string name :: .mark .colon :: (tokens value ++ fieldTokens rest)

/-- The tokens of the further items of an array, and its end. -/
def itemTokens : List Json → List Token
  | [] => [.mark .arrayClose]
  | item :: rest => .mark .comma :: (tokens item ++ itemTokens rest)

/-- The tokens of the further fields of an object, and its end. -/
def fieldTokens : List (Quoted × Json) → List Token
  | [] => [.mark .objectClose]
  | (name, value) :: rest =>
    .mark .comma :: .string name :: .mark .colon :: (tokens value ++ fieldTokens rest)

end

/-! ### From the tokens to the value -/

/-- The states that tokens lead through, one after the other. -/
abbrev State.readAll (s : State) (ts : List Token) : Option State :=
  ts.foldlM State.read s

theorem State.readAll_cons (s : State) (t : Token) (ts : List Token) :
    s.readAll (t :: ts) = (s.read t).bind (·.readAll ts) :=
  rfl

/-- No value starts with the end of an array. -/
theorem tokens_eq_cons (v : Json) :
    ∃ t ts, v.tokens = t :: ts ∧ t ≠ .mark .arrayClose := by
  cases v with
  | array items =>
    cases items <;> refine ⟨.mark .arrayOpen, _, by rw [tokens], ?_⟩ <;> nofun
  | object fields =>
    cases fields <;> refine ⟨.mark .objectOpen, _, by rw [tokens], ?_⟩ <;> nofun
  | _ =>
    rw [tokens]
    exact ⟨_, _, rfl, nofun⟩

/-- So the first item of an array is read as any other is. -/
theorem readAll_firstItem (v : Json) (open_ : List Frame) (ts : List Token) :
    (State.firstItem open_).readAll (v.tokens ++ ts) =
      (State.value (.array [] :: open_)).readAll (v.tokens ++ ts) := by
  obtain ⟨t, rest, htokens, hne⟩ := v.tokens_eq_cons
  rw [htokens, List.cons_append, State.readAll_cons, State.readAll_cons, State.read, State.read,
    if_neg hne]

mutual

/-- The tokens of a value complete it wherever a value is expected. -/
theorem readAll_tokens : ∀ (v : Json) (open_ : List Frame) (ts : List Token),
    (State.value open_).readAll (v.tokens ++ ts) = (State.after v open_).readAll ts
  | .null, open_, ts => by rw [tokens]; rfl
  | .bool _, open_, ts => by rw [tokens]; rfl
  | .whole _ _, open_, ts => by rw [tokens]; rfl
  | .real _, open_, ts => by rw [tokens]; rfl
  | .string _, open_, ts => by rw [tokens]; rfl
  | .array [], open_, ts => by rw [tokens]; rfl
  | .array (item :: rest), open_, ts => by
    calc (State.value open_).readAll ((Json.array (item :: rest)).tokens ++ ts)
        = (State.firstItem open_).readAll (item.tokens ++ (itemTokens rest ++ ts)) := by
          rw [tokens, List.cons_append, List.append_assoc]
          rfl
      _ = (State.after item (.array [] :: open_)).readAll (itemTokens rest ++ ts) := by
          rw [readAll_firstItem, readAll_tokens item]
      _ = (State.after (.array (item :: rest)) open_).readAll ts :=
          readAll_itemTokens rest item [] open_ ts
  | .object [], open_, ts => by rw [tokens]; rfl
  | .object ((name, value) :: rest), open_, ts => by
    calc (State.value open_).readAll ((Json.object ((name, value) :: rest)).tokens ++ ts)
        = (State.value (.object [] name :: open_)).readAll
            (value.tokens ++ (fieldTokens rest ++ ts)) := by
          rw [tokens, List.cons_append, List.cons_append, List.cons_append, List.append_assoc]
          rfl
      _ = (State.after value (.object [] name :: open_)).readAll (fieldTokens rest ++ ts) :=
          readAll_tokens value _ _
      _ = (State.after (.object ((name, value) :: rest)) open_).readAll ts :=
          readAll_fieldTokens rest value [] name open_ ts

/-- The tokens behind an item complete the array that holds it. -/
theorem readAll_itemTokens : ∀ (rest : List Json) (v : Json) (items : List Json)
    (open_ : List Frame) (ts : List Token),
    (State.after v (.array items :: open_)).readAll (itemTokens rest ++ ts) =
      (State.after (.array ((v :: items).reverse ++ rest)) open_).readAll ts
  | [], v, items, open_, ts => by
    rw [itemTokens, List.append_nil]
    rfl
  | item :: rest, v, items, open_, ts => by
    calc (State.after v (.array items :: open_)).readAll (itemTokens (item :: rest) ++ ts)
        = (State.value (.array (v :: items) :: open_)).readAll
            (item.tokens ++ (itemTokens rest ++ ts)) := by
          rw [itemTokens, List.cons_append, List.append_assoc]
          rfl
      _ = (State.after item (.array (v :: items) :: open_)).readAll (itemTokens rest ++ ts) :=
          readAll_tokens item _ _
      _ = (State.after (.array ((item :: v :: items).reverse ++ rest)) open_).readAll ts :=
          readAll_itemTokens rest item (v :: items) open_ ts
      _ = (State.after (.array ((v :: items).reverse ++ item :: rest)) open_).readAll ts := by
          rw [List.reverse_cons, List.append_assoc, List.singleton_append]

/-- The tokens behind a field complete the object that holds it. -/
theorem readAll_fieldTokens : ∀ (rest : List (Quoted × Json)) (v : Json)
    (fields : List (Quoted × Json)) (name : Quoted) (open_ : List Frame) (ts : List Token),
    (State.after v (.object fields name :: open_)).readAll (fieldTokens rest ++ ts) =
      (State.after (.object (((name, v) :: fields).reverse ++ rest)) open_).readAll ts
  | [], v, fields, name, open_, ts => by
    rw [fieldTokens, List.append_nil]
    rfl
  | (name', value) :: rest, v, fields, name, open_, ts => by
    calc (State.after v (.object fields name :: open_)).readAll
            (fieldTokens ((name', value) :: rest) ++ ts)
        = (State.value (.object ((name, v) :: fields) name' :: open_)).readAll
            (value.tokens ++ (fieldTokens rest ++ ts)) := by
          rw [fieldTokens, List.cons_append, List.cons_append, List.cons_append,
            List.append_assoc]
          rfl
      _ = (State.after value (.object ((name, v) :: fields) name' :: open_)).readAll
            (fieldTokens rest ++ ts) :=
          readAll_tokens value _ _
      _ = (State.after (.object (((name', value) :: (name, v) :: fields).reverse ++ rest))
            open_).readAll ts :=
          readAll_fieldTokens rest value ((name, v) :: fields) name' open_ ts
      _ = (State.after (.object (((name, v) :: fields).reverse ++ (name', value) :: rest))
            open_).readAll ts := by
          rw [List.reverse_cons, List.append_assoc, List.singleton_append]

end

theorem ofTokens?_tokens (v : Json) : ofTokens? v.tokens = some v := by
  have h := readAll_tokens v [] []
  rw [List.append_nil] at h
  unfold ofTokens?
  rw [show v.tokens.foldlM State.read (.value []) = some (.after v []) from h]

/-! ### From the text to the tokens -/

/-! What follows an item or a field starts with a mark or with white space. -/

theorem lineItems_ends (items : List Json) :
    EndsRun (lineItems items) ∧ lineItems items ≠ [] := by
  cases items <;> rw [lineItems]
  · exact ⟨.inr ⟨.arrayClose, rfl⟩, nofun⟩
  · exact ⟨.inr ⟨.comma, rfl⟩, nofun⟩

theorem lineFields_ends (fields : List (Quoted × Json)) :
    EndsRun (lineFields fields) ∧ lineFields fields ≠ [] := by
  cases fields <;> rw [lineFields]
  · exact ⟨.inr ⟨.objectClose, rfl⟩, nofun⟩
  · exact ⟨.inr ⟨.comma, rfl⟩, nofun⟩

theorem newLine_append_ends (depth : Nat) (cs : List Char) :
    EndsRun (newLine depth ++ cs) ∧ newLine depth ++ cs ≠ [] :=
  ⟨.inl (by decide), nofun⟩

theorem indentedItems_ends (depth : Nat) (items : List Json) :
    EndsRun (indentedItems depth items) ∧ indentedItems depth items ≠ [] := by
  cases items <;> rw [indentedItems]
  · exact newLine_append_ends depth _
  · exact ⟨.inr ⟨.comma, rfl⟩, nofun⟩

theorem indentedFields_ends (depth : Nat) (fields : List (Quoted × Json)) :
    EndsRun (indentedFields depth fields) ∧ indentedFields depth fields ≠ [] := by
  cases fields <;> rw [indentedFields]
  · exact newLine_append_ends depth _
  · exact ⟨.inr ⟨.comma, rfl⟩, nofun⟩

mutual

/-- A value on one line spells its tokens. -/
theorem spells_lineChars : ∀ v : Json, Spells v.lineChars v.tokens
  | .null => by
    rw [lineChars, tokens]
    exact spells_null
  | .bool true => by
    rw [lineChars, tokens]
    exact spells_true
  | .bool false => by
    rw [lineChars, tokens]
    exact spells_false
  | .whole negative magnitude => by
    rw [lineChars, tokens]
    exact spells_wholeChars negative magnitude
  | .real r => by
    rw [lineChars, tokens]
    exact spells_real r
  | .string q => by
    rw [lineChars, tokens]
    exact spells_quotedChars q
  | .array [] => by
    rw [lineChars, tokens]
    exact Spells.nil.mark_cons .arrayClose |>.mark_cons .arrayOpen
  | .array (item :: rest) => by
    rw [lineChars, tokens, List.cons_append]
    exact .mark_cons .arrayOpen <| (spells_lineChars item).append (lineItems_ends rest)
      (spells_lineItems rest)
  | .object [] => by
    rw [lineChars, tokens]
    exact Spells.nil.mark_cons .objectClose |>.mark_cons .objectOpen
  | .object ((name, value) :: rest) => by
    rw [lineChars, tokens, List.cons_append, List.cons_append, List.append_assoc]
    refine .mark_cons .objectOpen <| (spells_quotedChars name).append ⟨.inr ⟨.colon, rfl⟩, nofun⟩
      (.mark_cons .colon ?_)
    exact (spells_lineChars value).append (lineFields_ends rest)
      (spells_lineFields rest)

theorem spells_lineItems : ∀ items : List Json, Spells (lineItems items) (itemTokens items)
  | [] => by
    rw [lineItems, itemTokens]
    exact .mark_cons .arrayClose .nil
  | item :: rest => by
    rw [lineItems, itemTokens, List.cons_append]
    exact .mark_cons .comma <| (spells_lineChars item).append (lineItems_ends rest)
      (spells_lineItems rest)

theorem spells_lineFields : ∀ fields : List (Quoted × Json),
    Spells (lineFields fields) (fieldTokens fields)
  | [] => by
    rw [lineFields, fieldTokens]
    exact .mark_cons .objectClose .nil
  | (name, value) :: rest => by
    rw [lineFields, fieldTokens, List.cons_append, List.cons_append, List.append_assoc]
    refine .mark_cons .comma <| (spells_quotedChars name).append ⟨.inr ⟨.colon, rfl⟩, nofun⟩
      (.mark_cons .colon ?_)
    exact (spells_lineChars value).append (lineFields_ends rest)
      (spells_lineFields rest)

end

/-! Indentation is white space in front of what it indents, and so it is no token. -/

mutual

/-- A value with indentation spells its tokens, however deep it stands. -/
theorem spells_indentedChars : ∀ (depth : Nat) (v : Json), Spells (v.indentedChars depth) v.tokens
  | depth, .null => by
    rw [indentedChars, tokens]
    exact spells_null
  | depth, .bool true => by
    rw [indentedChars, tokens]
    exact spells_true
  | depth, .bool false => by
    rw [indentedChars, tokens]
    exact spells_false
  | depth, .whole negative magnitude => by
    rw [indentedChars, tokens]
    exact spells_wholeChars negative magnitude
  | depth, .real r => by
    rw [indentedChars, tokens]
    exact spells_real r
  | depth, .string q => by
    rw [indentedChars, tokens]
    exact spells_quotedChars q
  | depth, .array [] => by
    rw [indentedChars, tokens]
    exact Spells.nil.mark_cons .arrayClose |>.mark_cons .arrayOpen
  | depth, .array (item :: rest) => by
    rw [indentedChars, tokens, List.cons_append, List.cons_append, List.append_assoc]
    refine .mark_cons .arrayOpen <| .newLine_append (depth + 1) ?_
    exact (spells_indentedChars (depth + 1) item).append (indentedItems_ends depth rest)
      (spells_indentedItems depth rest)
  | depth, .object [] => by
    rw [indentedChars, tokens]
    exact Spells.nil.mark_cons .objectClose |>.mark_cons .objectOpen
  | depth, .object ((name, value) :: rest) => by
    rw [indentedChars, tokens]
    simp only [List.cons_append, List.append_assoc]
    refine .mark_cons .objectOpen <| .newLine_append (depth + 1) <|
      (spells_quotedChars name).append ⟨.inr ⟨.colon, rfl⟩, nofun⟩
        (.mark_cons .colon <| .space_cons (by decide) ?_)
    exact (spells_indentedChars (depth + 1) value).append (indentedFields_ends depth rest)
      (spells_indentedFields depth rest)

theorem spells_indentedItems : ∀ (depth : Nat) (items : List Json),
    Spells (indentedItems depth items) (itemTokens items)
  | depth, [] => by
    rw [indentedItems, itemTokens]
    exact .newLine_append depth (.mark_cons .arrayClose .nil)
  | depth, item :: rest => by
    rw [indentedItems, itemTokens, List.cons_append, List.cons_append, List.append_assoc]
    refine .mark_cons .comma <| .newLine_append (depth + 1) ?_
    exact (spells_indentedChars (depth + 1) item).append (indentedItems_ends depth rest)
      (spells_indentedItems depth rest)

theorem spells_indentedFields : ∀ (depth : Nat) (fields : List (Quoted × Json)),
    Spells (indentedFields depth fields) (fieldTokens fields)
  | depth, [] => by
    rw [indentedFields, fieldTokens]
    exact .newLine_append depth (.mark_cons .objectClose .nil)
  | depth, (name, value) :: rest => by
    rw [indentedFields, fieldTokens]
    simp only [List.cons_append, List.append_assoc]
    refine .mark_cons .comma <| .newLine_append (depth + 1) <|
      (spells_quotedChars name).append ⟨.inr ⟨.colon, rfl⟩, nofun⟩
        (.mark_cons .colon <| .space_cons (by decide) ?_)
    exact (spells_indentedChars (depth + 1) value).append (indentedFields_ends depth rest)
      (spells_indentedFields depth rest)

end

/-! ### From the text to the value -/

theorem Spells.tokens? {cs : List Char} {ts : List Token} (h : Spells cs ts) :
    Json.tokens? cs = some ts := by
  have hend := h [] trivial
  rwa [List.append_nil, scan, endRun_nil, Option.map_some, List.append_nil] at hend

theorem Spells.ofText?_ofList {cs : List Char} {v : Json} (h : Spells cs v.tokens) :
    Json.ofText? (String.ofList cs) = some v := by
  unfold Json.ofText?
  rw [String.toList_ofList, h.tokens?, Option.bind_some, ofTokens?_tokens]

/-- **A value is what its text on a line spells.** -/
@[simp] theorem ofText?_line (v : Json) : ofText? v.line = some v :=
  (spells_lineChars v).ofText?_ofList

/-- **A value is what its indented text spells.** -/
@[simp] theorem ofText?_indented (v : Json) : ofText? v.indented = some v :=
  (spells_indentedChars 0 v).ofText?_ofList

end Json

end Clearing
