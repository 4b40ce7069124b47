import FileFixture.Proofs.Text.Digits
import FileFixture.Timestamp.Reader

/-!
Reading undoes the writing of moments. Every field has as many digits as the reader asks for at most, so that
one field ends where the next begins; and the seconds of the day together with the number of the day are the
seconds that were written. Only a leap second within a minute is lost: its text is that of the second after it.
-/
namespace FileFixture.Timestamp

open Text (IsDigits EndsDigits bind_of_ok)

variable {rest : List Char}

theorem isDigits_padded (width n : Nat) : IsDigits (padded width n) := by
  have h := Text.isDigits_toDigits n
  constructor
  · simp [padded, List.leftpad, h.ne_nil]
  · intro c hc
    rcases List.mem_append.mp hc with hc | hc
    · rw [List.eq_of_mem_replicate hc]
      rfl
    · exact h.digit c hc

theorem length_padded {width n : Nat} (hwidth : 0 < width) (hn : n < Nat.pow 10 width) :
    (padded width n).length = width := by
  rw [padded, List.length_leftpad, Nat.max_eq_left]
  exact (Nat.length_toDigits_le_iff (by decide) hwidth).mpr hn

theorem ofDigitChars_padded (width n : Nat) : Nat.ofDigitChars 10 (padded width n) 0 = n := by
  rw [padded, List.leftpad, Nat.ofDigitChars_append, Nat.ofDigitChars_replicate_zero, Nat.mul_zero,
    Nat.ofDigitChars_ten_toDigits]

/-- A number ends with the last digit that it may have, or where the digits end. -/
theorem number_append {most : Nat} {ds : List Char} (h : IsDigits ds) (hlength : ds.length ≤ most)
    (hend : ds.length = most ∨ EndsDigits rest) :
    number most (ds ++ rest) = .ok (Nat.ofDigitChars 10 ds 0, rest) := by
  have hafter : EndsDigits (rest.take (most - ds.length)) := by
    rcases hend with hfull | hend
    · rw [hfull, Nat.sub_self]
      exact fun c hc => absurd hc (by simp)
    · intro c hc
      rw [List.head?_take] at hc
      split at hc
      · exact absurd hc (by simp)
      · exact hend c hc
  have htake : ((ds ++ rest).take most).takeWhile Char.isDigit = ds := by
    rw [List.take_append, List.take_of_length_le hlength, Text.takeWhile_isDigit h.digit hafter]
  cases ds with
  | nil => exact absurd rfl h.ne_nil
  | cons d ds =>
    have hdrop : (d :: ds ++ rest).drop (d :: ds).length = rest := List.drop_left
    unfold number
    rw [htake]
    exact congrArg (fun r => Except.ok (_, r)) hdrop

theorem number_padded {width n : Nat} (hwidth : 0 < width) (hn : n < Nat.pow 10 width) :
    number width (padded width n ++ rest) = .ok (n, rest) := by
  have hlength := length_padded hwidth hn
  rw [number_append (isDigits_padded width n) (Nat.le_of_eq hlength) (Or.inl hlength), ofDigitChars_padded]

/-- There is nothing to skip where a character stands that is no white space. -/
theorem skipBlank_cons {c : Char} (hc : Text.isBlank c = false) :
    skipBlank (c :: rest) = .ok ((), c :: rest) := by
  have htrim : Text.trimStart (c :: rest) = c :: rest := by
    rw [Text.trimStart_cons, if_neg (by simp [hc])]
  change Except.ok ((), Text.trimStart (c :: rest)) = _
  rw [htrim]

theorem skipBlank_digits {ds : List Char} (h : IsDigits ds) : skipBlank (ds ++ rest) = .ok ((), ds ++ rest) := by
  cases ds with
  | nil => exact absurd rfl h.ne_nil
  | cons d ds => exact skipBlank_cons (Text.isBlank_of_isDigit (h.digit d List.mem_cons_self))

theorem field_padded {low high n : Nat} (hlow : low ≤ n) (hhigh : n ≤ high) (hn : n < 100) :
    field low high (padded 2 n ++ rest) = .ok (n, rest) := by
  rw [field, bind_of_ok (skipBlank_digits (isDigits_padded 2 n)), bind_of_ok (number_padded (by decide) hn),
    if_pos ⟨hlow, hhigh⟩]
  rfl

theorem literal_cons (c : Char) : literal c (c :: rest) = .ok ((), rest) := if_pos rfl

theorem year_yearText {y : Int} (h₀ : 0 ≤ y) (h₁ : y ≤ 9999) : year (yearText y ++ rest) = .ok (y, rest) := by
  have hdigits := isDigits_padded 4 y.toNat
  have hhead : ∀ c tail, padded 4 y.toNat ++ rest = c :: tail → c.isDigit = true :=
    fun _ _ => Text.isDigit_of_append_eq_cons hdigits
  have hlt : y.toNat < 10000 := by omega
  have hnumber : number 4 (padded 4 y.toNat ++ rest) = .ok (y.toNat, rest) := number_padded (by decide) hlt
  have hbounds : -2147483648 ≤ y ∧ y ≤ 2147483647 := by omega
  rw [yearText, if_pos ⟨h₀, h₁⟩, year, bind_of_ok (skipBlank_digits hdigits)]
  generalize padded 4 y.toNat ++ rest = text at hhead hnumber ⊢
  have hget : (get : Part (List Char)) text = .ok (text, text) := rfl
  rw [bind_of_ok hget]
  split
  case h_1 => exact absurd (hhead '-' _ rfl) (by decide)
  case h_2 => exact absurd (hhead '+' _ rfl) (by decide)
  case h_3 =>
    rw [bind_of_ok hnumber, pure_bind, Int.toNat_of_nonneg h₀]
    exact congrFun (if_pos hbounds) rest

theorem readDate_dateText {d : Date} (hd : d.Valid) (h₀ : 0 ≤ d.year) (h₁ : d.year ≤ 9999) :
    readDate (dateText d ++ rest) = .ok (d, rest) := by
  obtain ⟨hm₀, hm₁, hd₀, hd₁⟩ := hd
  have hday : d.day ≤ 31 := by
    unfold Date.daysIn at hd₁
    grind
  have hmonth : field 1 12 (padded 2 d.month ++ ('-' :: padded 2 d.day ++ rest)) = _ :=
    field_padded hm₀ hm₁ (by omega)
  have hfield : field 1 31 (padded 2 d.day ++ rest) = _ := field_padded hd₀ hday (by omega)
  have hdash : ∀ text, skipBlank ('-' :: text) = .ok ((), '-' :: text) := fun _ => skipBlank_cons (by decide)
  have htext : dateText d ++ rest =
      yearText d.year ++ '-' :: (padded 2 d.month ++ ('-' :: padded 2 d.day ++ rest)) := by
    simp [dateText]
  rw [htext, readDate, bind_of_ok (year_yearText h₀ h₁), bind_of_ok (hdash _), bind_of_ok (literal_cons '-'),
    bind_of_ok hmonth, List.cons_append, bind_of_ok (hdash _), bind_of_ok (literal_cons '-'), bind_of_ok hfield]
  rfl

theorem fraction_point {digits : Nat} {n : Nat} (hdigits : 0 < digits) (hmost : digits ≤ 9) (hn : n < Nat.pow 10 digits)
    (hrest : EndsDigits rest) :
    fraction ('.' :: padded digits n ++ rest) = .ok (n * Nat.pow 10 (9 - digits), rest) := by
  have hlength := length_padded hdigits hn
  have hnumber : number 9 (padded digits n ++ rest) = .ok (n, rest) := by
    rw [number_append (isDigits_padded digits n) (by omega) (Or.inr hrest), ofDigitChars_padded]
  have hplaces : (padded digits n ++ rest).length - rest.length = digits := by
    rw [List.length_append, hlength, Nat.add_sub_cancel]
  have hdrop : rest.dropWhile Char.isDigit = rest := @Text.dropWhile_isDigit [] rest (by simp) hrest
  have hget : ∀ text, (get : Part (List Char)) text = .ok (text, text) := fun _ => rfl
  have hset : ∀ text text', (set text' : Part PUnit) text = .ok ((), text') := fun _ _ => rfl
  have hmodify : (modify (List.dropWhile Char.isDigit) : Part PUnit) rest = .ok ((), rest) := by
    change Except.ok ((), rest.dropWhile Char.isDigit) = _
    rw [hdrop]
  rw [fraction, List.cons_append, bind_of_ok (hget _)]
  simp only
  rw [bind_of_ok (hset _ _), bind_of_ok hnumber, bind_of_ok (hget _), bind_of_ok hmodify, hplaces]
  rfl

theorem fraction_fractionText {nanos : Nat} (hnanos : nanos < 1000000000) :
    fraction (fractionText nanos ++ 'Z' :: rest) = .ok (nanos, 'Z' :: rest) := by
  have hrest : EndsDigits ('Z' :: rest) := by
    intro c hc
    cases hc
    rfl
  unfold fractionText
  split
  case isTrue h =>
    rw [h]
    rfl
  case isFalse =>
    split
    case isTrue h =>
      have hlt : nanos / 1000000 < 1000 := by omega
      have hscale : nanos / 1000000 * Nat.pow 10 (9 - 3) = nanos := Nat.div_mul_cancel (Nat.dvd_of_mod_eq_zero h)
      rw [fraction_point (by decide) (by decide) hlt hrest, hscale]
    case isFalse =>
      split
      case isTrue h =>
        have hlt : nanos / 1000 < 1000000 := by omega
        have hscale : nanos / 1000 * Nat.pow 10 (9 - 6) = nanos := Nat.div_mul_cancel (Nat.dvd_of_mod_eq_zero h)
        rw [fraction_point (by decide) (by decide) hlt hrest, hscale]
      case isFalse =>
        have hscale : nanos * Nat.pow 10 (9 - 9) = nanos := Nat.mul_one nanos
        rw [fraction_point (by decide) (by decide) hnanos hrest, hscale]

theorem clock_clockText {inDay nanos : Nat} (hday : inDay < 86400) (hnanos : nanos < 2000000000) :
    clock (clockText inDay nanos ++ 'Z' :: rest) =
      .ok (⟨inDay / 3600, inDay / 60 % 60, inDay % 60 + nanos / 1000000000, nanos % 1000000000⟩, 'Z' :: rest) := by
  have hfraction : fraction (fractionText (nanos % 1000000000) ++ 'Z' :: rest) = _ :=
    fraction_fractionText (by omega)
  have hcolon : ∀ text, skipBlank (':' :: text) = .ok ((), ':' :: text) := fun _ => skipBlank_cons (by decide)
  have hzone : skipBlank ('Z' :: rest) = .ok ((), 'Z' :: rest) := skipBlank_cons (by decide)
  have hhour : ∀ rest, field 0 23 (padded 2 (inDay / 3600) ++ rest) = .ok (inDay / 3600, rest) := fun _ =>
    field_padded (by omega) (by omega) (by omega)
  have hminute : ∀ rest, field 0 59 (padded 2 (inDay / 60 % 60) ++ rest) = .ok (inDay / 60 % 60, rest) := fun _ =>
    field_padded (by omega) (by omega) (by omega)
  have hsecond : ∀ rest, field 0 60 (padded 2 (inDay % 60 + nanos / 1000000000) ++ rest) =
      .ok (inDay % 60 + nanos / 1000000000, rest) := fun _ =>
    field_padded (by omega) (by omega) (by omega)
  rw [clockText, clock]
  simp only [List.append_assoc, List.cons_append]
  rw [bind_of_ok (hhour _), bind_of_ok (hcolon _), bind_of_ok (literal_cons ':'), bind_of_ok (hminute _),
    bind_of_ok (hcolon _), bind_of_ok (literal_cons ':'), bind_of_ok (hsecond _), bind_of_ok hfraction,
    bind_of_ok hzone]
  rfl

theorem offset_zulu : offset ('Z' :: rest) = .ok (0, rest) := rfl

/-- The parts of a moment make it up again. Second 60 is written exactly for a leap second. -/
theorem ofParts_date {t : Timestamp} (hleap : t.LeapAtEnd) (h₀ : 0 ≤ t.date.year) (h₁ : t.date.year ≤ 9999) :
    let inDay := (t.seconds % secondsPerDay).toNat
    ofParts t.date ⟨inDay / 3600, inDay / 60 % 60, inDay % 60 + t.nanos / 1000000000, t.nanos % 1000000000⟩ 0 =
      .ok t := by
  intro inDay
  have hlt := t.nanos_lt
  have hinDay : (inDay : Int) = t.seconds % 86400 := Int.toNat_of_nonneg (Int.emod_nonneg _ (by decide))
  clear_value inDay
  have hvalid : t.date.Valid := Date.valid_ofDay _
  have hday : t.date.toDay = t.seconds / 86400 := Date.toDay_ofDay _
  have hrange : yearInRange t.date.year = true := by
    simp only [yearInRange, Bool.and_eq_true, decide_eq_true_eq]
    omega
  have hunix : ofUnix? t.seconds t.nanos = some t := ofUnix?_self hleap
  rw [LeapAtEnd] at hleap
  have hnanos : (if inDay % 60 + t.nanos / 1000000000 = 60 then t.nanos % 1000000000 + 1000000000
      else t.nanos % 1000000000) = t.nanos := by
    split <;> omega
  have hseconds : t.date.toDay * 86400 + ((inDay / 3600 * 3600 + inDay / 60 % 60 * 60 +
      if inDay % 60 + t.nanos / 1000000000 = 60 then 59 else inDay % 60 + t.nanos / 1000000000 : Nat) : Int) - 0 =
        t.seconds := by
    rw [hday]
    split <;> omega
  have hdate : Date.ofDay (t.seconds / 86400) = t.date := rfl
  rw [ofParts, hseconds, hnanos, hdate, hunix, if_neg (by simp [hrange, hvalid]), if_neg (by simp [hrange])]

/-- Such a moment, of a year that four digits can name, is read as it was written. -/
theorem ofText_toText_of_leapAtEnd {t : Timestamp} (hleap : t.LeapAtEnd) (h₀ : 0 ≤ t.date.year) (h₁ : t.date.year ≤ 9999) :
    ofText t.toText = .ok t := by
  have hday : (t.seconds % secondsPerDay).toNat < 86400 := by
    unfold secondsPerDay
    omega
  have hvalid : t.date.Valid := Date.valid_ofDay _
  have hdate : ∀ rest, readDate (dateText t.date ++ 'T' :: rest) = .ok (t.date, 'T' :: rest) := fun _ =>
    readDate_dateText hvalid h₀ h₁
  have hclock : clock (clockText (t.seconds % secondsPerDay).toNat t.nanos ++ ['Z']) = .ok (_, ['Z']) :=
    clock_clockText hday t.nanos_lt
  have htrim : Text.trimStart [] = [] := rfl
  have hseparator : ∀ rest, separator ('T' :: rest) = .ok ((), rest) := fun _ => rfl
  rw [ofText, toText, String.toList_ofList, text, List.append_assoc, List.cons_append, read, hdate]
  simp only [bind, Except.bind, hseparator, hclock, offset_zulu, htrim, if_true]
  exact ofParts_date hleap h₀ h₁

/-- The moment that a text is read as: in place of a leap second within a minute, the second after it. -/
def settled (t : Timestamp) : Timestamp :=
  if t.LeapAtEnd then t
  else ⟨t.seconds + 1, t.nanos - 1000000000, Nat.lt_of_le_of_lt (Nat.sub_le _ _) t.nanos_lt⟩

theorem settled_of_leapAtEnd {t : Timestamp} (h : t.LeapAtEnd) : t.settled = t := if_pos h

theorem settled_eq_self_iff {t : Timestamp} : t.settled = t ↔ t.LeapAtEnd := by
  refine ⟨fun h => ?_, settled_of_leapAtEnd⟩
  unfold settled at h
  split at h
  case isTrue hleap => exact hleap
  case isFalse =>
    have hseconds : t.seconds + 1 = t.seconds := congrArg seconds h
    omega

theorem leapAtEnd_settled (t : Timestamp) : t.settled.LeapAtEnd := by
  unfold settled
  split
  case isTrue h => exact h
  case isFalse =>
    have hlt := t.nanos_lt
    have hfew : ¬1000000000 ≤ t.nanos - 1000000000 := by omega
    exact fun hmany => absurd hmany hfew

/-- Not at the end of its minute, a second and the next one have the same day, hour and minute. -/
theorem clockText_succ {inDay nanos : Nat} (h : inDay % 60 ≠ 59) (hleap : 1000000000 ≤ nanos) :
    clockText (inDay + 1) (nanos - 1000000000) = clockText inDay nanos := by
  have hhour : (inDay + 1) / 3600 = inDay / 3600 := by omega
  have hminute : (inDay + 1) / 60 % 60 = inDay / 60 % 60 := by omega
  have hsecond : (inDay + 1) % 60 + (nanos - 1000000000) / 1000000000 = inDay % 60 + nanos / 1000000000 := by omega
  have hfraction : (nanos - 1000000000) % 1000000000 = nanos % 1000000000 := by omega
  rw [clockText, clockText, hhour, hminute, hsecond, hfraction]

theorem date_settled (t : Timestamp) : t.settled.date = t.date := by
  unfold settled
  split
  case isTrue => rfl
  case isFalse h =>
    obtain ⟨hmany, hsecond⟩ := Classical.not_imp.mp h
    have hday : (t.seconds + 1) / secondsPerDay = t.seconds / secondsPerDay := by
      unfold secondsPerDay
      omega
    exact congrArg Date.ofDay hday

theorem toText_settled (t : Timestamp) : t.settled.toText = t.toText := by
  rw [toText, text, date_settled]
  unfold settled
  split
  case isTrue => rfl
  case isFalse h =>
    obtain ⟨hmany, hsecond⟩ := Classical.not_imp.mp h
    obtain ⟨inDay, hinDay⟩ : ∃ inDay : Nat, (inDay : Int) = t.seconds % secondsPerDay :=
      ⟨_, Int.toNat_of_nonneg (Int.emod_nonneg _ (by decide))⟩
    have hnext : (t.seconds + 1) % secondsPerDay = ((inDay + 1 : Nat) : Int) := by
      unfold secondsPerDay at hinDay ⊢
      omega
    have hminute : inDay % 60 ≠ 59 := by
      unfold secondsPerDay at hinDay
      omega
    simp only [hnext, Int.toNat_natCast, clockText_succ hminute hmany]
    rw [toText, text, ← hinDay, Int.toNat_natCast]

/-- A moment of the years that four digits can name is read from its text as far as the text tells it. -/
theorem ofText_toText {t : Timestamp} (h₀ : 0 ≤ t.date.year) (h₁ : t.date.year ≤ 9999) :
    ofText t.toText = .ok t.settled := by
  rw [← date_settled] at h₀ h₁
  rw [← toText_settled, ofText_toText_of_leapAtEnd t.leapAtEnd_settled h₀ h₁]

end FileFixture.Timestamp
