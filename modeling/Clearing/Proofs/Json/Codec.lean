import Clearing.Json.Codec
import Clearing.Proofs.Decimal.Text
import Clearing.Proofs.Json.Quoted
import Clearing.Proofs.Json.RoundTrip

/-!
Values that come back from their JSON.

A codec is lawful (`Codec.Lawful`) where every value is read back as it was written.  Numbers of a
fixed width are, text is, and so are lists of what is, and a record is where its fields are.  Two
types are not: a decimal loses the sign of a zero, and a natural number comes back only if it fits
64 bits.  The law carries over to texts, because a value is what both of its texts spell.
-/

namespace Clearing

namespace Codec

variable {α β : Type}

/-- Every value is read back as it was written. -/
class Lawful (α : Type) [Codec α] : Prop where
  decode_encode : ∀ a : α, decode (encode a) = some a

export Lawful (decode_encode)

attribute [simp] decode_encode

theorem Lawful.wrapping [Codec α] [Lawful α] {wrap : α → β} {unwrap : β → α}
    (h : ∀ b, wrap (unwrap b) = b) : @Lawful β (Codec.wrapping wrap unwrap) :=
  @Lawful.mk β (Codec.wrapping wrap unwrap) fun b => by
    show (decode (encode (unwrap b))).map wrap = some b
    rw [decode_encode, Option.map_some, h]

/-! ### Numbers, truth values and text -/

theorem int?_ofInt (n : Int) : int? (.ofInt n) = some n := by
  unfold Json.ofInt
  by_cases h : n < 0
  · rw [decide_eq_true h, int?, if_neg (by omega)]
    congr 1
    omega
  · rw [decide_eq_false h, int?]
    congr 1
    omega

/-- A whole number within the bounds is read back. -/
theorem intWithin?_ofInt {low high n : Int} (hlow : low ≤ n) (hhigh : n ≤ high) :
    intWithin? low high (.ofInt n) = some n := by
  rw [intWithin?, int?_ofInt, Option.filter_some, if_pos (decide_eq_true ⟨hlow, hhigh⟩)]

theorem ofNat_eq_ofInt (n : Nat) : Json.ofNat n = .ofInt n := by
  rw [Json.ofNat, Json.ofInt, decide_eq_false (by omega), Int.natAbs_natCast]

theorem decode_encode_nat {n : Nat} (h : n < UInt64.size) : decode (encode n) = some n := by
  have hlt : n < 18446744073709551616 := h
  show (intWithin? 0 18446744073709551615 (.ofNat n)).map Int.toNat = some n
  rw [ofNat_eq_ofInt, intWithin?_ofInt (by omega) (by omega), Option.map_some, Int.toNat_natCast]

instance : Lawful UInt32 where
  decode_encode n := by
    have hlt := n.toNat_lt
    show (intWithin? 0 4294967295 (.ofNat n.toNat)).map (fun n => UInt32.ofNat n.toNat) = some n
    rw [ofNat_eq_ofInt, intWithin?_ofInt (by omega) (by omega), Option.map_some, Int.toNat_natCast,
      UInt32.ofNat_toNat]

instance : Lawful UInt64 where
  decode_encode n := by
    have hlt := n.toNat_lt
    show (intWithin? 0 18446744073709551615 (.ofNat n.toNat)).map
      (fun n => UInt64.ofNat n.toNat) = some n
    rw [ofNat_eq_ofInt, intWithin?_ofInt (by omega) (by omega), Option.map_some, Int.toNat_natCast,
      UInt64.ofNat_toNat]

instance : Lawful Int32 where
  decode_encode n := by
    have hlow := n.le_toInt
    have hhigh := n.toInt_lt
    show (intWithin? (-2147483648) 2147483647 (.ofInt n.toInt)).map Int32.ofInt = some n
    rw [intWithin?_ofInt (by omega) (by omega), Option.map_some, Int32.ofInt_toInt]

instance : Lawful Int64 where
  decode_encode n := by
    have hlow := n.le_toInt
    have hhigh := n.toInt_lt
    show (intWithin? (-9223372036854775808) 9223372036854775807 (.ofInt n.toInt)).map
      Int64.ofInt = some n
    rw [intWithin?_ofInt (by omega) (by omega), Option.map_some, Int64.ofInt_toInt]

instance : Lawful Bool where
  decode_encode _ := rfl

instance : Lawful String where
  decode_encode s := Json.Quoted.text?_ofText s

/-- A decimal comes back with its scale, and with its sign unless it is zero. -/
theorem decode_encode_decimal (d : Decimal) : decode (encode d) = some d.dropZeroSign := by
  show (Json.Quoted.ofText d.text).text?.bind Decimal.ofNotation? = _
  rw [Json.Quoted.text?_ofText, Option.bind_some, Decimal.ofNotation?_text]

/-! ### Containers and choices -/

theorem mapM_map_eq_some {γ : Type} {f : α → γ} {g : γ → Option β} {h : α → β} (as : List α)
    (hread : ∀ a ∈ as, g (f a) = some (h a)) : (as.map f).mapM g = some (as.map h) := by
  induction as with
  | nil => rfl
  | cons a as ih =>
    rw [List.map_cons, List.mapM_cons, hread a (List.mem_cons_self ..),
      ih fun b hb => hread b (List.mem_cons_of_mem _ hb)]
    rfl

instance [Codec α] [Lawful α] : Lawful (List α) where
  decode_encode as := by
    show (as.map encode).mapM decode = some as
    rw [mapM_map_eq_some as fun a _ => decode_encode a, List.map_id']

theorem decode_option_of_ne_null [Codec α] {j : Json} (h : j ≠ .null) :
    (decode j : Option (Option α)) = (decode j).map some := by
  cases j with
  | null => exact absurd rfl h
  | _ => rfl

/-- What may be left out is told from null by what it is written as. -/
theorem decode_encode_option [Codec α] [Lawful α] (h : ∀ a : α, encode a ≠ .null)
    (a : Option α) : decode (encode a) = some a := by
  cases a with
  | none => rfl
  | some a =>
    show decode (encode a) = some (some a)
    rw [decode_option_of_ne_null (h a), decode_encode, Option.map_some]

/-- A choice is read back where its names tell the cases apart. -/
theorem Lawful.choice [DecidableEq α] {names : List (String × α)}
    (h : ∀ a, ofName? names (nameOf names a) = some a) : @Lawful α (Codec.choice names) :=
  @Lawful.mk α (Codec.choice names) fun a => by
    show (Json.Quoted.ofText (nameOf names a)).text?.bind (ofName? names) = some a
    rw [Json.Quoted.text?_ofText, Option.bind_some, h]

@[simp] theorem caseOf?_case [Codec α] (name : String) (a : α) :
    caseOf? (case_ name a) = some (name, encode a) := by
  show ((Json.Quoted.ofText name).text?.map fun name => (name, encode a)) = _
  rw [Json.Quoted.text?_ofText, Option.map_some]

/-! ### Records -/

/-- Where no name is repeated, only the one field has its name. -/
theorem filter_name_eq_singleton {named : List (String × Json)} (h : (named.map (·.1)).Nodup)
    {f : String × Json} (hf : f ∈ named) : named.filter (·.1 = f.1) = [f] := by
  induction named with
  | nil => nomatch hf
  | cons g named ih =>
    rw [List.map_cons, List.nodup_cons] at h
    rcases List.mem_cons.1 hf with rfl | hf
    · rw [List.filter_cons_of_pos (by simp), List.filter_eq_nil_iff.2]
      intro g hg hname
      exact h.1 (of_decide_eq_true hname ▸ List.mem_map_of_mem hg)
    · have hne : g.1 ≠ f.1 := fun hname => h.1 (hname ▸ List.mem_map_of_mem hf)
      rw [List.filter_cons_of_neg (by simpa using hne), ih h.2 hf]

/-- An object has under its names what it was written with, where it repeats none. -/
theorem fieldsOf?_ofFields {named : List (String × Json)} (h : (named.map (·.1)).Nodup) :
    fieldsOf? (named.map (·.1)) (.ofFields named) = some (named.map fun f => some f.2) := by
  have hnamed : (named.map fun f => (Json.Quoted.ofText f.1, f.2)).mapM
      (fun f => f.1.text?.map fun name => (name, f.2)) = some named := by
    rw [mapM_map_eq_some (h := id) _ (by simp), List.map_id]
  rw [Json.ofFields, fieldsOf?, hnamed, Option.bind_eq_bind, Option.bind_some]
  refine mapM_map_eq_some named fun f hf => ?_
  rw [filter_name_eq_singleton h hf]

/-- A record is read as the values that it was written with. -/
theorem fieldsOf?_record {names : List String} {values : List Json} (hnodup : names.Nodup)
    (hlen : names.length = values.length) :
    fieldsOf? names (record names values) = some (values.map some) := by
  have hnames : (names.zip values).map (·.1) = names := List.map_fst_zip (by omega)
  have hvalues : (names.zip values).map (·.2) = values := List.map_snd_zip (by omega)
  have hsome : (names.zip values).map (fun f => some f.2) = values.map some :=
    List.map_map.symm.trans (congrArg (List.map some) hvalues)
  have hread := @fieldsOf?_ofFields (names.zip values) (by rwa [hnames])
  rwa [hnames, hsome] at hread

@[simp] theorem field_of [Codec α] [Lawful α] (a : α) : field (some (Json.of a)) = some a :=
  decode_encode a

@[simp] theorem field_of_decimal (d : Decimal) : field (some (Json.of d)) = some d.dropZeroSign :=
  decode_encode_decimal d

theorem field_of_nat {n : Nat} (h : n < UInt64.size) : field (some (Json.of n)) = some n :=
  decode_encode_nat h

/-! ### Texts -/

variable [Codec α] {a b : α}

/-- What a value is read back as, its text on a line is read as. -/
theorem ofText?_line (h : decode (encode a) = some b) : ofText? (Json.of a).line = some b := by
  rw [ofText?, Json.ofText?_line, Option.bind_some]
  exact h

/-- What a value is read back as, its indented text is read as. -/
theorem ofText?_indented (h : decode (encode a) = some b) :
    ofText? (Json.of a).indented = some b := by
  rw [ofText?, Json.ofText?_indented, Option.bind_some]
  exact h

end Codec

end Clearing
