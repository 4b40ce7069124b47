import FileFixture.Json.Reader
import FileFixture.Proofs.Json.Grammar

/-!
Reading the tokens of the grammar: white space, words, strings in any spelling, and whole numbers that fit 64 bits.
-/
namespace FileFixture.Json.Reader

open Text (IsDigits EndsDigits bind_of_ok)

/-! White space -/

theorem isSpace_iff {c : Char} : isSpace c = true ↔ c ∈ [' ', '\t', '\n', '\r'] := by
  simp only [isSpace, Bool.or_eq_true, beq_iff_eq, List.mem_cons, List.not_mem_nil, or_false]
  grind

theorem skipSpace_cons {c : Char} (hc : isSpace c = false) (rest : List Char) :
    skipSpace (c :: rest) = c :: rest := by
  rw [skipSpace, List.dropWhile_cons_of_neg (by simp [hc])]

theorem skipSpace_of_space {text rest : List Char} (h : Space text rest) : skipSpace text = skipSpace rest := by
  induction h with
  | none => rfl
  | more hc _ ih =>
    rw [skipSpace, List.dropWhile_cons_of_pos (isSpace_iff.mpr hc)]
    exact ih

/-! Strings -/

theorem hexDigit?_of_hexDigit {n : Nat} {c : Char} (h : HexDigit n c) : hexDigit? c = some n ∧ n < 16 := by
  have hlower : ∀ n < 16, "0123456789abcdef".toList[n]?.bind hexDigit? = some n := by decide
  have hupper : ∀ n < 16, "0123456789ABCDEF".toList[n]?.bind hexDigit? = some n := by decide
  rcases h with h | h
  · have hn : n < 16 := (List.getElem?_eq_some_iff.mp h).1
    have hbind := hlower n hn
    rw [h] at hbind
    exact ⟨hbind, hn⟩
  · have hn : n < 16 := (List.getElem?_eq_some_iff.mp h).1
    have hbind := hupper n hn
    rw [h] at hbind
    exact ⟨hbind, hn⟩

theorem hexUnit_of_hexUnit {n : Nat} {text rest : List Char} (h : HexUnit n text rest) :
    hexUnit text = .ok (n, rest) := by
  cases h with
  | digits ha hb hc hd =>
    simp only [hexUnit, (hexDigit?_of_hexDigit ha).1, (hexDigit?_of_hexDigit hb).1, (hexDigit?_of_hexDigit hc).1,
      (hexDigit?_of_hexDigit hd).1]

/-- No character has the number of a surrogate. -/
theorem surrogate_eq_false (c : Char) : isLowSurrogate c.toNat = false ∧ isHighSurrogate c.toNat = false := by
  have hc : c.toNat < 0xD800 ∨ 0xDFFF < c.toNat ∧ c.toNat < 0x110000 := c.valid
  simp only [isLowSurrogate, isHighSurrogate, Bool.and_eq_false_iff, decide_eq_false_iff_not]
  omega

theorem unicodeEscape_of_unit {c : Char} {text rest : List Char} (h : HexUnit c.toNat text rest) :
    unicodeEscape text = .ok (c, rest) := by
  have hc := surrogate_eq_false c
  simp [unicodeEscape, hexUnit_of_hexUnit h, hc, bind, Except.bind]

theorem unicodeEscape_of_pair {c : Char} {high low : Nat} {text text' rest : List Char}
    (h : HexUnit high text ('\\' :: 'u' :: text')) (h' : HexUnit low text' rest)
    (hhigh : 0xD800 ≤ high) (hhigh' : high < 0xDC00) (hlow : 0xDC00 ≤ low) (hlow' : low < 0xE000)
    (hc : c.toNat = 0x10000 + (high - 0xD800) * 0x400 + (low - 0xDC00)) : unicodeEscape text = .ok (c, rest) := by
  have hl : isLowSurrogate high = false := by grind [isLowSurrogate]
  have hh : isHighSurrogate high = true := by grind [isHighSurrogate]
  have hl' : isLowSurrogate low = true := by grind [isLowSurrogate]
  simp [unicodeEscape, hexUnit_of_hexUnit h, hexUnit_of_hexUnit h', hl, hh, hl', ← hc, bind, Except.bind]

theorem shortEscape?_of_mem {letter c : Char} (h : (letter, c) ∈ shortEscapes) :
    letter ≠ 'u' ∧ shortEscape? letter = some c := by
  have hall : ∀ m ∈ shortEscapes, m.1 ≠ 'u' ∧ shortEscape? m.1 = some m.2 := by decide
  exact hall _ h

theorem escape_short {letter c : Char} (h : (letter, c) ∈ shortEscapes) (rest : List Char) :
    escape (letter :: rest) = .ok (c, rest) := by
  have hletter := shortEscape?_of_mem h
  rw [escape, if_neg hletter.1, hletter.2]

theorem escape_unicode (text : List Char) : escape ('u' :: text) = unicodeEscape text := by
  rw [escape, if_pos rfl]

theorem stringBody_plain {c : Char} (hcontrol : 0x20 ≤ c.toNat) (hquote : c ≠ '"') (hbackslash : c ≠ '\\')
    {fuel : Nat} {cs text rest : List Char} (h : stringBody fuel text = .ok (cs, rest)) :
    stringBody (fuel + 1) (c :: text) = .ok (c :: cs, rest) := by
  rw [stringBody, if_neg hquote, if_neg hbackslash, if_neg (Nat.not_lt.mpr hcontrol), h]
  rfl

theorem stringBody_escape {c : Char} {fuel : Nat} {cs text text' rest : List Char}
    (hescape : escape text = .ok (c, text')) (h : stringBody fuel text' = .ok (cs, rest)) :
    stringBody (fuel + 1) ('\\' :: text) = .ok (c :: cs, rest) := by
  rw [stringBody, if_neg (by decide), if_pos rfl, hescape]
  change (stringBody fuel text' >>= fun p => _) = _
  rw [h]
  rfl

theorem stringBody_of_spells {cs text rest : List Char} (h : SpellsChars cs text rest) {fuel : Nat}
    (hfuel : cs.length < fuel) : stringBody fuel text = .ok (cs, rest) := by
  induction h generalizing fuel with
  | closing =>
    obtain ⟨fuel, rfl⟩ := Nat.exists_eq_add_one_of_ne_zero (Nat.ne_of_gt hfuel)
    rfl
  | char hc _ ih =>
    obtain ⟨fuel, rfl⟩ := Nat.exists_eq_add_one_of_ne_zero (Nat.ne_zero_of_lt hfuel)
    have hbody := ih (Nat.lt_of_succ_lt_succ hfuel)
    cases hc with
    | plain hcontrol hquote hbackslash => exact stringBody_plain hcontrol hquote hbackslash hbody
    | short hmem => exact stringBody_escape (escape_short hmem _) hbody
    | unit hunit hn =>
      subst hn
      exact stringBody_escape ((escape_unicode _).trans (unicodeEscape_of_unit hunit)) hbody
    | pair hhigh hlow h₁ h₂ h₃ h₄ hn =>
      exact stringBody_escape ((escape_unicode _).trans (unicodeEscape_of_pair hhigh hlow h₁ h₂ h₃ h₄ hn)) hbody

/-- A string is read in whatever way it is spelled. -/
theorem openString_of_spells {s : String} {text rest : List Char} (h : SpellsChars s.toList text rest) :
    openString text = .ok (s, rest) := by
  have hbody := stringBody_of_spells h (Nat.lt_succ_of_lt h.length_lt.1)
  rw [openString, hbody]
  exact congrArg (fun s => Except.ok (s, rest)) String.ofList_toList

/-! Words -/

theorem word_append (letters rest : List Char) : word letters (letters ++ rest) = .ok ((), rest) := by
  induction letters with
  | nil => rfl
  | cons a letters ih => rw [List.cons_append, word, if_pos rfl, ih]

/-! Whole numbers -/

theorem le_ofDigitChars (n : Nat) (ds : List Char) : n ≤ Nat.ofDigitChars 10 ds n := by
  rw [Nat.ofDigitChars_eq_ofDigitChars_zero]
  exact Nat.le_add_right_of_le (Nat.le_mul_of_pos_left n (Nat.pow_pos (by decide)))

theorem fit_of_lt {n : Nat} {ds : List Char} (h : Nat.ofDigitChars 10 ds n < Nat.pow 2 64) :
    Numeral.fit n ds = (Nat.ofDigitChars 10 ds n, []) := by
  induction ds generalizing n with
  | nil => rfl
  | cons c ds ih =>
    rw [Nat.ofDigitChars_cons, Nat.mul_comm] at h
    rw [Nat.ofDigitChars_cons, Nat.mul_comm 10 n]
    have hfits : n * 10 + (c.toNat - '0'.toNat) < Nat.pow 2 64 := Nat.lt_of_le_of_lt (le_ofDigitChars _ ds) h
    simp only [Numeral.fit, if_pos hfits]
    exact ih h

theorem digits_append {ds rest : List Char} (h : IsDigits ds) (hrest : EndsDigits rest) (atEnd : Fault) :
    Numeral.digits atEnd (ds ++ rest) = .ok (ds, rest) := by
  cases ds with
  | nil => exact absurd rfl h.ne_nil
  | cons d ds =>
    obtain ⟨hd, hds⟩ := List.forall_mem_cons.mp h.digit
    rw [List.cons_append, Numeral.digits, if_pos hd, Text.takeWhile_isDigit hds hrest,
      Text.dropWhile_isDigit hds hrest]

theorem wholeDigits_numberText (n : Nat) {rest : List Char} (hrest : EndsDigits rest) (atEnd : Fault) :
    Numeral.wholeDigits atEnd (numberText n ++ rest) = .ok (numberText n, rest) := by
  have hdigits : Numeral.digits atEnd (numberText n ++ rest) = .ok (numberText n, rest) :=
    digits_append (Text.isDigits_toDigits n) hrest atEnd
  have hzero : (numberText n).head? = some '0' → numberText n = ['0'] := Text.toDigits_of_head?
  rw [Numeral.wholeDigits, hdigits]
  generalize numberText n = ds at hzero ⊢
  simp only [bind, Except.bind]
  split
  case h_1 => exact absurd (hzero rfl) (by simp)
  case h_2 => rfl

theorem fractionDigits_of_ends {rest : List Char} (h : Ends rest) (atEnd : Fault) :
    Numeral.fractionDigits atEnd rest = .ok ([], rest) := by
  unfold Numeral.fractionDigits
  split
  case h_1 => exact absurd (h '.' rfl) (by decide)
  case h_2 => rfl

theorem powerOfTen_of_ends {rest : List Char} (h : Ends rest) (atEnd : Fault) :
    Numeral.powerOfTen atEnd rest = .ok (none, rest) := by
  cases rest with
  | nil => rfl
  | cons c rest =>
    have hc : ¬(c = 'e' ∨ c = 'E') := by
      rintro (rfl | rfl)
      · exact absurd (h 'e' rfl) (by decide)
      · exact absurd (h 'E' rfl) (by decide)
    exact if_neg hc

theorem read_numberText (n : Nat) {rest : List Char} (hrest : Ends rest) (atEnd : Fault) :
    Numeral.read atEnd (numberText n ++ rest) = .ok (⟨false, numberText n, [], none⟩, rest) := by
  have hhead : ∀ tail, numberText n ++ rest ≠ '-' :: tail := fun tail htext =>
    absurd (Text.isDigit_of_append_eq_cons (Text.isDigits_toDigits n) htext) (by decide)
  have hwhole := wholeDigits_numberText n hrest.endsDigits atEnd
  rw [Numeral.read]
  refine (bind_of_ok (?_ : _ = Except.ok (false, numberText n ++ rest))).trans ?_
  · generalize numberText n ++ rest = text at hhead ⊢
    split
    case h_1 => exact absurd rfl (hhead _)
    case h_2 => rfl
  · rw [bind_of_ok hwhole, bind_of_ok (fractionDigits_of_ends hrest atEnd), bind_of_ok (powerOfTen_of_ends hrest atEnd)]
    rfl

theorem number_of_lt {n : Nat} (hn : n < Nat.pow 2 64) {rest : List Char} (hrest : Ends rest) :
    Reader.number (numberText n ++ rest) = .ok (.integer n, rest) := by
  have hvalue : Nat.ofDigitChars 10 (numberText n) 0 = n := Nat.ofDigitChars_ten_toDigits
  have hfit : Numeral.fit 0 (numberText n) = (n, []) := by
    rw [fit_of_lt (by rw [hvalue]; exact hn), hvalue]
  have hnumber : Numeral.number ⟨false, numberText n, [], none⟩ = .ok (.integer n) := by
    simp [Numeral.number, hfit, Numeral.fit]
  rw [Reader.number, read_numberText n hrest]
  change (Numeral.number ⟨false, numberText n, [], none⟩ >>= fun value => _) = _
  rw [hnumber]
  rfl

end FileFixture.Json.Reader
