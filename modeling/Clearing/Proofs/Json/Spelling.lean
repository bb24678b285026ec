import Clearing.Json.Token
import Clearing.Json.Writer
import Mathlib.Data.List.TakeWhile

/-!
What the pieces of written text are cut into.

The scan does not stop at the end of a piece: a run of letters and digits goes on until a mark or
white space ends it.  So a piece is said to spell its tokens where it is followed by something that
ends a run (`EndsRun`), and what follows a piece in written text always does.  `Spells` is closed
under putting pieces together, and the words, numbers and strings of the writer are the pieces to
start from.
-/

namespace Clearing

namespace Json

/-! ### Pieces of text -/

/-- A run does not go on into these characters. -/
def EndsRun : List Char → Prop
  | [] => True
  | c :: _ => isSpace c = true ∨ ∃ m : Mark, m.char = c

/-- The characters are cut into these tokens, in front of whatever ends a run. -/
def Spells (cs : List Char) (ts : List Token) : Prop :=
  ∀ rest, EndsRun rest → scan (.run []) (cs ++ rest) = (scan (.run []) rest).map (ts ++ ·)

theorem Mark.ofChar?_char (m : Mark) : Mark.ofChar? m.char = some m := by
  cases m <;> decide

theorem Mark.char_ne_quote (m : Mark) : m.char ≠ '"' := by
  cases m <;> decide

theorem Mark.isSpace_char (m : Mark) : isSpace m.char = false := by
  cases m <;> decide

theorem scan_space {c : Char} (h : isSpace c = true) (seen rest : List Char) :
    scan (.run seen) (c :: rest) = endRun seen (scan (.run []) rest) := by
  rw [scan, if_pos h]

theorem scan_mark (m : Mark) (seen rest : List Char) :
    scan (.run seen) (m.char :: rest) =
      endRun seen ((scan (.run []) rest).map (.mark m :: ·)) := by
  rw [scan, if_neg (by rw [m.isSpace_char]; nofun), if_neg m.char_ne_quote, m.ofChar?_char]

theorem endRun_nil (rest : Option (List Token)) : endRun [] rest = rest :=
  rfl

/-- What ends a run ends it in front of the tokens that follow. -/
theorem scan_run_of_endsRun {rest : List Char} (h : EndsRun rest) (seen : List Char) :
    scan (.run seen) rest = endRun seen (scan (.run []) rest) := by
  cases rest with
  | nil => rfl
  | cons c rest =>
    rcases h with hspace | ⟨m, rfl⟩
    · rw [scan_space hspace, scan_space hspace, endRun_nil]
    · rw [scan_mark, scan_mark, endRun_nil]

theorem EndsRun.append {cs : List Char} (h : EndsRun cs) (hne : cs ≠ []) (rest : List Char) :
    EndsRun (cs ++ rest) := by
  cases cs with
  | nil => exact absurd rfl hne
  | cons c cs => exact h

namespace Spells

variable {cs cs' : List Char} {ts ts' : List Token}

theorem nil : Spells [] [] := by
  intro rest _
  simp

theorem mark_cons (m : Mark) (h : Spells cs ts) : Spells (m.char :: cs) (.mark m :: ts) := by
  intro rest hrest
  rw [List.cons_append, scan_mark, endRun_nil, h rest hrest, Option.map_map]
  rfl

theorem space_cons {c : Char} (hc : isSpace c = true) (h : Spells cs ts) :
    Spells (c :: cs) ts := by
  intro rest hrest
  rw [List.cons_append, scan_space hc, endRun_nil, h rest hrest]

/-- Pieces go together where the second one ends the runs of the first. -/
theorem append (h : Spells cs ts) (hends : EndsRun cs' ∧ cs' ≠ []) (h' : Spells cs' ts') :
    Spells (cs ++ cs') (ts ++ ts') := by
  intro rest hrest
  rw [List.append_assoc, h _ (hends.1.append hends.2 rest), h' rest hrest, Option.map_map]
  simp only [Function.comp_def, List.append_assoc]

/-- Indentation is nothing but white space. -/
theorem newLine_append (depth : Nat) (h : Spells cs ts) : Spells (newLine depth ++ cs) ts := by
  refine space_cons (by decide) ?_
  induction 2 * depth with
  | zero => exact h
  | succ n ih => exact space_cons (by decide) ih

end Spells

/-! ### Words and numbers -/

/-- A character that a run is made of. -/
def IsPlainRun (c : Char) : Prop :=
  isSpace c = false ∧ c ≠ '"' ∧ Mark.ofChar? c = none

instance (c : Char) : Decidable (IsPlainRun c) :=
  inferInstanceAs (Decidable (_ ∧ _))

theorem scan_run_append {cs : List Char} (h : ∀ c ∈ cs, IsPlainRun c) (seen rest : List Char) :
    scan (.run seen) (cs ++ rest) = scan (.run (cs.reverse ++ seen)) rest := by
  induction cs generalizing seen with
  | nil => rfl
  | cons c cs ih =>
    obtain ⟨hspace, hquote, hmark⟩ := h c (List.mem_cons_self ..)
    rw [List.cons_append, scan, if_neg (by rw [hspace]; nofun), if_neg hquote, hmark]
    dsimp only
    rw [ih (fun c' hc' => h c' (List.mem_cons_of_mem _ hc')), List.reverse_cons,
      List.append_assoc, List.singleton_append]

/-- A run that is a token spells it. -/
theorem Spells.run {cs : List Char} {t : Token} (h : ∀ c ∈ cs, IsPlainRun c) (hne : cs ≠ [])
    (ht : Token.ofRun? cs = some t) : Spells cs [t] := by
  intro rest hrest
  rw [scan_run_append h, scan_run_of_endsRun hrest, List.append_nil]
  unfold endRun
  rw [if_neg (by simpa using hne), List.reverse_reverse, ht]
  cases scan (.run []) rest <;> rfl

/-- A word that is a token spells it. -/
theorem Spells.word {cs : List Char} {t : Token}
    (h : cs.all (fun c => decide (IsPlainRun c)) = true) (hne : cs ≠ [])
    (ht : Token.ofRun? cs = some t) : Spells cs [t] :=
  .run (fun c hc => of_decide_eq_true (List.all_eq_true.1 h c hc)) hne ht

theorem spells_null : Spells ['n', 'u', 'l', 'l'] [.null] :=
  .word (by decide) nofun rfl

theorem spells_true : Spells ['t', 'r', 'u', 'e'] [.bool true] :=
  .word (by decide) nofun rfl

theorem spells_false : Spells ['f', 'a', 'l', 's', 'e'] [.bool false] :=
  .word (by decide) nofun rfl

/-! Digits are nothing else. -/

theorem isPlainRun_of_isDigit {c : Char} (h : c.isDigit = true) : IsPlainRun c := by
  have hrange : 48 ≤ c.toNat ∧ c.toNat ≤ 57 := by
    simpa [Char.isDigit, UInt32.le_iff_toNat_le] using h
  have hne : ∀ d : Char, (d.toNat < 48 ∨ 57 < d.toNat) → c ≠ d := by
    rintro d hd rfl
    omega
  have hmark : Mark.ofChar? c = none := by
    unfold Mark.ofChar?
    rw [List.find?_eq_none]
    intro m _ hm
    exact hne m.char (by cases m <;> decide) (of_decide_eq_true hm).symm
  refine ⟨?_, hne _ (by decide), hmark⟩
  unfold isSpace
  simp [hne ' ' (by decide), hne '\t' (by decide), hne '\n' (by decide), hne '\r' (by decide)]

theorem mem_toDigits_isDigit {n : Nat} {c : Char} (h : c ∈ Nat.toDigits 10 n) :
    c.isDigit = true :=
  Nat.isDigit_of_mem_toDigits (by decide) (by decide) h

/-- No zero stands in front of the digits of a number. -/
theorem head?_toDigits {n : Nat} (h : n ≠ 0) : (Nat.toDigits 10 n).head? ≠ some '0' := by
  induction n using Nat.strongRecOn with
  | ind n ih =>
    rw [Nat.toDigits_eq_if (by decide)]
    by_cases hlt : n < 10
    · rw [if_pos hlt, List.head?_cons]
      have : ∀ m : Fin 10, m.val ≠ 0 → some m.val.digitChar ≠ some '0' := by decide
      exact this ⟨n, hlt⟩ h
    · obtain ⟨c, cs, hcs⟩ :=
        List.exists_cons_of_ne_nil (Nat.toDigits_ne_nil (n := n / 10) (b := 10))
      have := ih (n / 10) (by omega) (by omega)
      rw [hcs, List.head?_cons] at this
      rwa [if_neg hlt, hcs, List.cons_append, List.head?_cons]

theorem isWhole_toDigits (n : Nat) : isWhole (Nat.toDigits 10 n) = true := by
  have hdigits : (Nat.toDigits 10 n).all Char.isDigit = true := by
    rw [List.all_eq_true]
    exact fun _ => mem_toDigits_isDigit
  have hne : (Nat.toDigits 10 n).isEmpty = false := by
    rw [List.isEmpty_eq_false_iff]
    exact Nat.toDigits_ne_nil
  unfold isWhole
  rw [hdigits, hne]
  by_cases h : n = 0
  · rw [h]
    decide
  · simp [head?_toDigits h]

theorem digitsValue_toDigits (n : Nat) : digitsValue (Nat.toDigits 10 n) = n := by
  have h : digitsValue (Nat.toDigits 10 n) = Nat.ofDigitChars 10 (Nat.toDigits 10 n) 0 := by
    rw [Nat.ofDigitChars_eq_foldl]
    unfold digitsValue
    simp only [Nat.mul_comm]
  rw [h, Nat.ofDigitChars_ten_toDigits]

theorem unsigned_of_isDigit {cs : List Char} (h : ∀ c ∈ cs, c.isDigit = true) :
    unsigned cs = cs := by
  unfold unsigned
  split
  · exact absurd (h '-' (List.mem_cons_self ..)) (by decide)
  · rfl

theorem unsigned_wholeChars (negative : Bool) (n : Nat) :
    unsigned (wholeChars negative n) = Nat.toDigits 10 n := by
  cases negative
  · exact unsigned_of_isDigit fun _ => mem_toDigits_isDigit
  · rfl

theorem head?_wholeChars (negative : Bool) (n : Nat) :
    ((wholeChars negative n).head? == some '-') = negative := by
  cases negative
  · have : (Nat.toDigits 10 n).head? ≠ some '-' := fun h =>
      absurd (mem_toDigits_isDigit (List.mem_of_head? h)) (by decide)
    simpa [wholeChars] using this
  · rfl

/-- The digits of a whole number and its sign are that number. -/
theorem ofNumber?_wholeChars (negative : Bool) (n : Nat) :
    Token.ofNumber? (wholeChars negative n) = some (.whole negative n) := by
  unfold Token.ofNumber?
  dsimp only
  rw [unsigned_wholeChars, if_pos (isWhole_toDigits n), head?_wholeChars, digitsValue_toDigits]

/-- What is not a word is a run as it is a number. -/
theorem ofRun?_of_head? {cs : List Char} {c : Char} (h : cs.head? = some c)
    (hc : c.isDigit = true ∨ c = '-') : Token.ofRun? cs = Token.ofNumber? cs := by
  have hne : ∀ d ds, ¬ (d.isDigit = true ∨ d = '-') → cs ≠ d :: ds := by
    rintro d ds hd rfl
    rw [List.head?_cons, Option.some.injEq] at h
    exact hd (h ▸ hc)
  unfold Token.ofRun?
  rw [if_neg (hne _ _ (by decide)), if_neg (hne _ _ (by decide)), if_neg (hne _ _ (by decide))]

/-- A whole number spells itself, `-0` too. -/
theorem spells_wholeChars (negative : Bool) (n : Nat) :
    Spells (wholeChars negative n) [.whole negative n] := by
  obtain ⟨c, cs, hcs⟩ := List.exists_cons_of_ne_nil (Nat.toDigits_ne_nil (n := n) (b := 10))
  have hdigit : c.isDigit = true := mem_toDigits_isDigit (n := n) (by simp [hcs])
  refine Spells.run (fun c hc => ?_) ?_ ?_
  · rcases List.mem_append.1 hc with hsign | hdigits
    · cases negative
      · nomatch hsign
      · rw [List.mem_singleton.1 hsign]
        decide
    · exact isPlainRun_of_isDigit (mem_toDigits_isDigit hdigits)
  · simp [wholeChars]
  · cases negative
    · rw [ofRun?_of_head? (c := c) (by simp [wholeChars, hcs]) (.inl hdigit),
        ofNumber?_wholeChars]
    · rw [ofRun?_of_head? (c := '-') rfl (.inr rfl), ofNumber?_wholeChars]

/-! ### Numbers with a fraction or an exponent -/

theorem isPlainRun_of_all_isDigit {cs : List Char} (h : cs.all Char.isDigit = true) :
    ∀ c ∈ cs, IsPlainRun c :=
  fun _ hc => isPlainRun_of_isDigit (List.all_eq_true.1 h _ hc)

theorem isPlainRun_of_isExponent {cs : List Char} (h : isExponent cs = true) :
    ∀ c ∈ cs, IsPlainRun c := by
  unfold isExponent at h
  split at h
  · nofun
  · next e rest =>
    simp only [Bool.and_eq_true, Bool.or_eq_true, beq_iff_eq] at h
    obtain ⟨he, -, hdigits⟩ := h
    have hrest : ∀ c ∈ rest, IsPlainRun c := by
      split at hdigits
      · exact List.forall_mem_cons.2 ⟨by decide, isPlainRun_of_all_isDigit hdigits⟩
      · exact List.forall_mem_cons.2 ⟨by decide, isPlainRun_of_all_isDigit hdigits⟩
      · exact isPlainRun_of_all_isDigit hdigits
    refine List.forall_mem_cons.2 ⟨?_, hrest⟩
    rcases he with rfl | rfl <;> decide

theorem isPlainRun_takeWhile_isDigit (cs : List Char) :
    ∀ c ∈ cs.takeWhile Char.isDigit, IsPlainRun c :=
  isPlainRun_of_all_isDigit List.all_takeWhile

theorem isPlainRun_of_isTail {cs : List Char} (h : isTail cs = true) : ∀ c ∈ cs, IsPlainRun c := by
  unfold isTail at h
  split at h
  · next rest =>
    simp only [Bool.and_eq_true, Bool.or_eq_true] at h
    have hexponent : ∀ c ∈ rest.dropWhile Char.isDigit, IsPlainRun c := by
      rcases h.2 with hnone | hexponent
      · rw [List.isEmpty_iff.1 hnone]
        nofun
      · exact isPlainRun_of_isExponent hexponent
    rw [← List.takeWhile_append_dropWhile (p := Char.isDigit) (l := rest)]
    exact List.forall_mem_cons.2 ⟨by decide, List.forall_mem_append.2
      ⟨isPlainRun_takeWhile_isDigit rest, hexponent⟩⟩
  · exact isPlainRun_of_isExponent h

theorem isTail_nil : isTail [] = false := by
  decide

/-- What is left of a number without its sign: digits, the first of which stands at its front, and
something behind them. -/
theorem Real.unsigned_eq (r : Real) :
    ∃ c digits tail, unsigned r.chars = (c :: digits) ++ tail ∧ c.isDigit = true ∧
      (c :: digits).all Char.isDigit = true ∧ isTail tail = true ∧
      isWhole (unsigned r.chars) = false := by
  have h := r.isReal
  unfold Json.isReal at h
  simp only [Bool.and_eq_true] at h
  obtain ⟨hwhole, htail⟩ := h
  have hne : (unsigned r.chars).takeWhile Char.isDigit ≠ [] := by
    intro hnil
    rw [hnil] at hwhole
    exact absurd hwhole (by decide)
  obtain ⟨c, digits, hcs⟩ := List.exists_cons_of_ne_nil hne
  have hall : (c :: digits).all Char.isDigit = true := hcs ▸ List.all_takeWhile
  refine ⟨c, digits, _, ?_, List.all_eq_true.1 hall c (List.mem_cons_self ..), hall, htail, ?_⟩
  · rw [← hcs, List.takeWhile_append_dropWhile]
  · have hnot : (unsigned r.chars).all Char.isDigit = false := by
      rw [Bool.eq_false_iff]
      intro hdigits
      rw [List.dropWhile_eq_nil_iff.2 (List.all_eq_true.1 hdigits), isTail_nil] at htail
      exact Bool.false_ne_true htail
    unfold isWhole
    rw [hnot, Bool.and_false, Bool.false_and]

theorem unsigned_cases (cs : List Char) : cs = unsigned cs ∨ cs = '-' :: unsigned cs := by
  unfold unsigned
  split
  · exact .inr rfl
  · exact .inl rfl

/-- A number with a fraction or an exponent spells itself. -/
theorem spells_real (r : Real) : Spells r.chars [.real r] := by
  obtain ⟨c, digits, tail, hbody, hdigit, hdigits, htail, hwhole⟩ := r.unsigned_eq
  have hplain : ∀ c ∈ unsigned r.chars, IsPlainRun c := by
    rw [hbody]
    exact List.forall_mem_append.2 ⟨isPlainRun_of_all_isDigit hdigits, isPlainRun_of_isTail htail⟩
  have hnumber : Token.ofNumber? r.chars = some (.real r) := by
    unfold Token.ofNumber?
    dsimp only
    rw [hwhole, if_neg Bool.false_ne_true, dif_pos r.isReal]
  rcases unsigned_cases r.chars with h | h
  · refine Spells.run (h ▸ hplain) (by rw [h, hbody]; simp) ?_
    rw [ofRun?_of_head? (c := c) (by rw [h, hbody]; rfl) (.inl hdigit), hnumber]
  · refine Spells.run (fun c hc => ?_) (by rw [h]; simp) ?_
    · rw [h] at hc
      rcases List.mem_cons.1 hc with rfl | hc
      · decide
      · exact hplain c hc
    · rw [ofRun?_of_head? (c := '-') (by rw [h]; rfl) (.inr rfl), hnumber]

/-! ### Strings -/

theorem scan_quoted_plain {c : Char} (hq : c ≠ '"') (hb : c ≠ '\\') (seen rest : List Char) :
    scan (.quoted seen false) (c :: rest) = scan (.quoted (c :: seen) false) rest := by
  rw [scan, if_neg hq, beq_eq_false_iff_ne.2 hb]

theorem scan_quoted_escape (c : Char) (seen rest : List Char) :
    scan (.quoted seen false) ('\\' :: c :: rest) =
      scan (.quoted (c :: '\\' :: seen) false) rest := by
  rw [scan, if_neg (by decide), show ('\\' == '\\') = true from rfl, scan]

/-- A hexadecimal digit neither closes a string nor escapes. -/
theorem hexValue?_ne {c : Char} (h : (hexValue? c).isSome = true) : c ≠ '"' ∧ c ≠ '\\' := by
  constructor <;> rintro rfl <;> exact absurd h (by decide)

theorem hexValue4?_isSome {a b c d : Char} (h : (hexValue4? a b c d).isSome = true) :
    (hexValue? a).isSome = true ∧ (hexValue? b).isSome = true ∧ (hexValue? c).isSome = true ∧
      (hexValue? d).isSome = true := by
  unfold hexValue4? at h
  cases ha : hexValue? a <;> cases hb : hexValue? b <;> cases hc : hexValue? c <;>
    cases hd : hexValue? d <;> simp [ha, hb, hc, hd] at h ⊢

/-- A scan within quotes goes on to the quote that closes them. -/
theorem scan_quoted (cs seen rest : List Char) (h : isQuoted cs = true) :
    scan (.quoted seen false) (cs ++ rest) = scan (.quoted (cs.reverse ++ seen) false) rest := by
  induction cs using isQuoted.induct generalizing seen with
  | case1 => rfl
  | case2 a b c d cs ih =>
    rw [isQuoted, Bool.and_eq_true] at h
    obtain ⟨ha, hb, hc, hd⟩ := hexValue4?_isSome h.1
    simp only [List.cons_append, scan_quoted_escape]
    rw [scan_quoted_plain (hexValue?_ne ha).1 (hexValue?_ne ha).2,
      scan_quoted_plain (hexValue?_ne hb).1 (hexValue?_ne hb).2,
      scan_quoted_plain (hexValue?_ne hc).1 (hexValue?_ne hc).2,
      scan_quoted_plain (hexValue?_ne hd).1 (hexValue?_ne hd).2, ih _ h.2]
    simp
  | case3 c cs hnot ih =>
    rw [isQuoted, Bool.and_eq_true] at h
    rw [List.cons_append, List.cons_append, scan_quoted_escape, ih _ h.2]
    · simp
    · exact hnot
  | case4 c cs hnot hnot' ih =>
    rw [isQuoted, Bool.and_eq_true] at h
    · have hplain := h.1
      simp only [isPlain, Bool.and_eq_true, bne_iff_ne] at hplain
      rw [List.cons_append, scan_quoted_plain hplain.1.2 hplain.2, ih _ h.2]
      simp
    · exact hnot
    · exact hnot'

/-- A quoted string spells itself. -/
theorem spells_quotedChars (q : Quoted) : Spells (quotedChars q) [.string q] := by
  intro rest hrest
  have hchars : Quoted.ofChars? q.chars = some q := dif_pos q.isQuoted
  unfold quotedChars
  rw [List.cons_append, List.cons_append, scan, if_neg (by decide), if_pos rfl, endRun_nil,
    List.append_assoc, scan_quoted _ _ _ q.isQuoted, List.singleton_append, scan, if_pos rfl,
    List.append_nil, List.reverse_reverse, hchars]
  cases scan (.run []) rest <;> rfl

end Json

end Clearing
