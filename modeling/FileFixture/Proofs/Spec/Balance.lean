import FileFixture.Proofs.Spec.Nested
import Mathlib.Data.List.Count
import Mathlib.Order.Nat

/-!
Where a bracket is closed, said by counting. Behind an opener, the search for its closer keeps one number, and stops at
the first place where as many closers as openers of its kind have been met. Up to there the openers are ahead at every
place, so that the number never has to go below zero. Brackets of the other kind do not come into it.
-/
namespace FileFixture.Spec

namespace Bracket

variable {b : Bracket} {inner n : Nat} {c : Char} {text inside : List Char}

/-- As many openers of this kind as closers. -/
def Balanced (b : Bracket) (text : List Char) : Prop := text.count b.opener = text.count b.closer

/-- More openers of this kind than closers. -/
def Unclosed (b : Bracket) (text : List Char) : Prop := text.count b.closer < text.count b.opener

/-- The text closes what it opens itself, and one and `inner` more besides. -/
def Settles (b : Bracket) (inner : Nat) (text : List Char) : Prop :=
  text.count b.closer = text.count b.opener + inner + 1

instance (text : List Char) : Decidable (b.Balanced text) := inferInstanceAs (Decidable (_ = _))

instance (text : List Char) : Decidable (b.Settles inner text) := inferInstanceAs (Decidable (_ = _))

theorem not_settles_nil : ¬b.Settles inner [] := by simp [Settles]

theorem settles_opener : b.Settles inner (b.opener :: text) ↔ b.Settles (inner + 1) text := by
  simp only [Settles, List.count_cons_self, List.count_cons_of_ne (opener_ne_closer b b)]
  omega

theorem settles_closer_zero : b.Settles 0 (b.closer :: text) ↔ b.Balanced text := by
  simp only [Settles, Balanced, List.count_cons_self, List.count_cons_of_ne (closer_ne_opener b b)]
  omega

theorem settles_closer_succ : b.Settles (inner + 1) (b.closer :: text) ↔ b.Settles inner text := by
  simp only [Settles, List.count_cons_self, List.count_cons_of_ne (closer_ne_opener b b)]
  omega

theorem settles_other (ho : c ≠ b.opener) (hc : c ≠ b.closer) : b.Settles inner (c :: text) ↔ b.Settles inner text := by
  simp only [Settles, List.count_cons_of_ne ho, List.count_cons_of_ne hc]

theorem balanced_opener : b.Balanced (b.opener :: text) ↔ b.Settles 0 text := by
  simp only [Balanced, Settles, List.count_cons_self, List.count_cons_of_ne (opener_ne_closer b b)]
  omega

/-- The first place at which the text settles what was open before it. -/
def SettlesAt (b : Bracket) (inner : Nat) (text : List Char) (n : Nat) : Prop :=
  n < text.length ∧ b.Settles inner (text.take (n + 1)) ∧ ∀ m < n, ¬b.Settles inner (text.take (m + 1))

theorem not_settlesAt_nil : ¬b.SettlesAt inner [] n := by simp [SettlesAt]

/-- A character that does not settle anything puts the place off by one. -/
theorem settlesAt_cons {inner' : Nat} (h : ∀ t, b.Settles inner (c :: t) ↔ b.Settles inner' t) :
    b.SettlesAt inner (c :: text) n ↔ ∃ m, b.SettlesAt inner' text m ∧ m + 1 = n := by
  have hfirst : ¬b.Settles inner [c] := fun hc => not_settles_nil ((h []).mp hc)
  cases n with
  | zero => simp [SettlesAt, hfirst]
  | succ n =>
    simp only [SettlesAt, List.length_cons, List.take_succ_cons, Nat.forall_lt_succ_left, h, List.take_zero,
      not_settles_nil, not_false_eq_true, true_and, Nat.add_lt_add_iff_right, Nat.add_right_cancel_iff, exists_eq_right]

theorem settlesAt_closer_zero : b.SettlesAt 0 (b.closer :: text) n ↔ n = 0 := by
  have hfirst : b.Settles 0 [b.closer] := settles_closer_zero.mpr rfl
  cases n with
  | zero => simp [SettlesAt, hfirst]
  | succ n =>
    refine ⟨fun hat => ?_, fun h => absurd h (Nat.succ_ne_zero n)⟩
    exact absurd hfirst (hat.2.2 0 (Nat.succ_pos n))

/-- The search stops at this place and nowhere else. -/
theorem reach?_eq_some_iff : b.reach? inner text = some n ↔ b.SettlesAt inner text n := by
  induction text generalizing inner n with
  | nil => simp [reach?, not_settlesAt_nil]
  | cons c text ih =>
    by_cases ho : c = b.opener
    · rw [ho, reach?_opener, Option.map_eq_some_iff, settlesAt_cons fun _ => settles_opener]
      simp only [ih]
    · by_cases hc : c = b.closer
      · rw [hc]
        cases inner with
        | zero => rw [reach?_closer_zero, settlesAt_closer_zero, Option.some.injEq, eq_comm]
        | succ inner =>
          rw [reach?_closer_succ, Option.map_eq_some_iff, settlesAt_cons fun _ => settles_closer_succ]
          simp only [ih]
      · rw [reach?_other ho hc, Option.map_eq_some_iff, settlesAt_cons fun _ => settles_other ho hc]
        simp only [ih]

/-- One more character settles it at most, so up to the first place that does there is always something open. -/
theorem count_closer_le (h : ∀ m < n, ¬b.Settles inner (text.take (m + 1))) :
    (text.take n).count b.closer ≤ (text.take n).count b.opener + inner := by
  induction n with
  | zero => simp
  | succ n ih =>
    have hn := h n (Nat.lt_succ_self n)
    have hle := ih fun m hm => h m (Nat.lt_succ_of_lt hm)
    by_cases hlt : n < text.length
    · have hlast : [text[n]].count b.closer ≤ 1 := List.count_le_length
      rw [Settles] at hn
      rw [List.take_succ_eq_append_getElem hlt, List.count_append, List.count_append] at hn ⊢
      omega
    · rw [List.take_of_length_le (by omega)] at hle ⊢
      exact hle

/-- What follows the closer has no part in it. -/
theorem encloses_iff : b.Encloses inside ↔
    b.Settles 0 (inside ++ [b.closer]) ∧ ∀ m < inside.length, ¬b.Settles 0 (inside.take (m + 1)) := by
  have hat : ∀ rest, b.SettlesAt 0 (inside ++ b.closer :: rest) inside.length ↔
      b.Settles 0 (inside ++ [b.closer]) ∧ ∀ m < inside.length, ¬b.Settles 0 (inside.take (m + 1)) := by
    intro rest
    have hlength : inside.length < (inside ++ b.closer :: rest).length := by simp
    have hwhole : (inside ++ b.closer :: rest).take (inside.length + 1) = inside ++ [b.closer] := by
      simp [List.take_append, List.take_of_length_le]
    have hshorter : ∀ m < inside.length, (inside ++ b.closer :: rest).take (m + 1) = inside.take (m + 1) :=
      fun m hm => List.take_append_of_le_length (by omega)
    rw [SettlesAt, hwhole]
    constructor
    · rintro ⟨-, hsettles, h⟩
      exact ⟨hsettles, fun m hm => hshorter m hm ▸ h m hm⟩
    · rintro ⟨hsettles, h⟩
      exact ⟨hlength, hsettles, fun m hm => (hshorter m hm).symm ▸ h m hm⟩
  constructor
  · intro h
    exact (hat []).mp (reach?_eq_some_iff.mp (h []))
  · intro h rest
    exact reach?_eq_some_iff.mpr ((hat rest).mpr h)

end Bracket

/-- The text from one position through another. -/
def stretch (text : List Char) (i j : Nat) : List Char := (text.drop i).take (j + 1 - i)

section Closing

open FileFixture.Spec.Bracket

variable {b : Bracket} {text : List Char} {i j : Nat}

theorem drop_of_getElem? {c : Char} (hi : text[i]? = some c) : text.drop i = c :: text.drop (i + 1) := by
  obtain ⟨hlt, rfl⟩ := List.getElem?_eq_some_iff.mp hi
  exact List.drop_eq_getElem_cons hlt

theorem stretch_eq (hi : text[i]? = some b.opener) (m : Nat) :
    stretch text i (i + m) = b.opener :: (text.drop (i + 1)).take m := by
  have hlength : i + m + 1 - i = m + 1 := by omega
  rw [stretch, drop_of_getElem? hi, hlength, List.take_succ_cons]

theorem closing?_eq (hi : text[i]? = some b.opener) :
    closing? text i = (b.reach? 0 (text.drop (i + 1))).map (i + 1 + ·) := by
  simp only [closing?, drop_of_getElem? hi, ofOpener?_opener, Option.bind_some]

/-- The positions behind an opener where as many of its kind have been closed as opened. -/
def balancePoints (b : Bracket) (text : List Char) (i : Nat) : Set Nat :=
  {j | i < j ∧ j < text.length ∧ b.Balanced (stretch text i j)}

theorem mem_balancePoints {j : Nat} :
    j ∈ balancePoints b text i ↔ i < j ∧ j < text.length ∧ b.Balanced (stretch text i j) := Iff.rfl

instance : DecidablePred (· ∈ balancePoints b text i) := fun _ => inferInstanceAs (Decidable (_ ∧ _ ∧ _))

theorem mem_balancePoints_iff (hi : text[i]? = some b.opener) (n : Nat) :
    i + 1 + n ∈ balancePoints b text i ↔
      n < (text.drop (i + 1)).length ∧ b.Settles 0 ((text.drop (i + 1)).take (n + 1)) := by
  have hstretch : stretch text i (i + 1 + n) = b.opener :: (text.drop (i + 1)).take (n + 1) := by
    rw [Nat.add_assoc, Nat.add_comm 1 n, stretch_eq hi]
  rw [mem_balancePoints, hstretch, balanced_opener, List.length_drop]
  constructor
  · rintro ⟨-, hlt, h⟩
    exact ⟨by omega, h⟩
  · rintro ⟨hlt, h⟩
    exact ⟨by omega, by omega, h⟩

theorem closing?_eq_some_iff (hi : text[i]? = some b.opener) :
    closing? text i = some j ↔ IsLeast (balancePoints b text i) j := by
  rw [closing?_eq hi, Option.map_eq_some_iff]
  constructor
  · rintro ⟨n, hn, rfl⟩
    obtain ⟨hlt, hsettles, hfirst⟩ := reach?_eq_some_iff.mp hn
    refine ⟨(mem_balancePoints_iff hi n).mpr ⟨hlt, hsettles⟩, fun k hk => ?_⟩
    obtain ⟨m, rfl⟩ := Nat.exists_eq_add_of_lt hk.1
    rw [Nat.add_right_comm] at hk ⊢
    have hm := (mem_balancePoints_iff hi m).mp hk
    by_contra hlt'
    exact hfirst m (by omega) hm.2
  · rintro ⟨hmem, hleast⟩
    obtain ⟨n, rfl⟩ := Nat.exists_eq_add_of_lt hmem.1
    rw [Nat.add_right_comm] at hmem hleast ⊢
    obtain ⟨hlt, hsettles⟩ := (mem_balancePoints_iff hi n).mp hmem
    refine ⟨n, reach?_eq_some_iff.mpr ⟨hlt, hsettles, fun m hm hsettles' => ?_⟩, rfl⟩
    have hle := hleast ((mem_balancePoints_iff hi m).mpr ⟨by omega, hsettles'⟩)
    omega

theorem closing?_eq_none_iff (hi : text[i]? = some b.opener) :
    closing? text i = none ↔ ¬∃ k, k ∈ balancePoints b text i := by
  rw [Option.eq_none_iff_forall_ne_some]
  constructor
  · rintro h hpoint
    exact h _ ((closing?_eq_some_iff hi).mpr (Nat.isLeast_find hpoint))
  · intro h j hj
    exact h ⟨j, ((closing?_eq_some_iff hi).mp hj).1⟩

theorem getElem?_of_closing? (hi : text[i]? = some b.opener) (hj : closing? text i = some j) :
    text[j]? = some b.closer := by
  rw [closing?_eq hi, Option.map_eq_some_iff] at hj
  obtain ⟨n, hn, rfl⟩ := hj
  obtain ⟨inside, rest, hdrop, rfl, -⟩ := reach?_eq_some hn
  rw [← List.getElem?_drop, hdrop]
  simp

/-- The bracket is open at every position before it is closed. -/
theorem unclosed_stretch (hi : text[i]? = some b.opener) (hj : closing? text i = some j) {k : Nat} (hik : i ≤ k)
    (hkj : k < j) : b.Unclosed (stretch text i k) := by
  obtain ⟨hmem, hleast⟩ := (closing?_eq_some_iff hi).mp hj
  obtain ⟨n, rfl⟩ := Nat.exists_eq_add_of_le hik
  have hbefore : ∀ m < n, ¬b.Settles 0 ((text.drop (i + 1)).take (m + 1)) := by
    intro m hm hsettles
    have hlt : m < (text.drop (i + 1)).length := by
      have hinside := hmem.2.1
      rw [List.length_drop]
      omega
    have hle := hleast ((mem_balancePoints_iff hi m).mpr ⟨hlt, hsettles⟩)
    omega
  have hle := count_closer_le hbefore
  rw [stretch_eq hi, Unclosed, List.count_cons_self, List.count_cons_of_ne (opener_ne_closer b b)]
  omega

end Closing
end FileFixture.Spec
