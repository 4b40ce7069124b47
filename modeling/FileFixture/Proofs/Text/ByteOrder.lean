import Mathlib.Data.UInt
import Mathlib.Data.Char

/-!
Strings compare by their code points, and this is the order of their bytes in UTF-8: more bytes begin with a
greater byte, and among as many bytes the code point is written from its highest digit down.
-/
namespace FileFixture.Text

/-- The bytes of a string in UTF-8. -/
def bytes (s : String) : List UInt8 := s.toUTF8.data.toList

theorem bytes_ofList (l : List Char) : bytes (String.ofList l) = l.flatMap String.utf8EncodeChar := by
  simp [bytes, String.toUTF8, List.utf8Encode]

theorem bytes_eq (s : String) : bytes s = s.toList.flatMap String.utf8EncodeChar := by
  rw [← bytes_ofList, String.ofList_toList]

/-- The last bytes of a code point, with six bits in each. -/
def lowBytes : (count : Nat) → Nat → List UInt8
  | 0, _ => []
  | count + 1, v => UInt8.ofNat (v / 64 ^ count % 64 + 0x80) :: lowBytes count v

/-- How many bytes come after the first. -/
def lowCount (v : Nat) : Nat := if v < 0x80 then 0 else if v < 0x800 then 1 else if v < 0x10000 then 2 else 3

/-- What the first byte tells about the number of bytes. -/
def mark : Nat → Nat
  | 0 => 0
  | 1 => 0xc0
  | 2 => 0xe0
  | _ => 0xf0

def highByte (v : Nat) : Nat := v / 64 ^ lowCount v + mark (lowCount v)

theorem toNat_lt (c : Char) : c.toNat < 0x110000 := by
  rcases c.valid with h | ⟨-, h⟩
  · exact Nat.lt_trans h (by decide)
  · exact h

theorem highByte_lt {v : Nat} (h : v < 0x110000) : highByte v < 256 := by
  unfold highByte lowCount
  split_ifs <;> simp only [mark] <;> omega

theorem utf8EncodeChar_eq (c : Char) :
    String.utf8EncodeChar c =
      UInt8.ofNat (highByte c.toNat) :: lowBytes (lowCount c.toNat) c.toNat := by
  have hc := toNat_lt c
  unfold highByte lowCount
  split
  case isTrue h₁ =>
    have h : c.toNat ≤ 0x7f := by omega
    simp [String.utf8EncodeChar, h, mark, lowBytes]
  case isFalse h₁ =>
    have h₁' : ¬c.toNat ≤ 0x7f := by omega
    split
    case isTrue h₂ =>
      have h : c.toNat ≤ 0x7ff := by omega
      have hm : c.toNat / 64 % 32 = c.toNat / 64 := Nat.mod_eq_of_lt (by omega)
      simp [String.utf8EncodeChar, h₁', h, mark, lowBytes, hm]
    case isFalse h₂ =>
      have h₂' : ¬c.toNat ≤ 0x7ff := by omega
      split
      case isTrue h₃ =>
        have h : c.toNat ≤ 0xffff := by omega
        have hm : c.toNat / 4096 % 16 = c.toNat / 4096 := Nat.mod_eq_of_lt (by omega)
        simp [String.utf8EncodeChar, h₁', h₂', h, mark, lowBytes, hm]
      case isFalse h₃ =>
        have h : ¬c.toNat ≤ 0xffff := by omega
        have hm : c.toNat / 262144 % 8 = c.toNat / 262144 := Nat.mod_eq_of_lt (by omega)
        simp [String.utf8EncodeChar, h₁', h₂', h, mark, lowBytes, hm]

theorem byte_cons_lt {a b : Nat} (hb : b < 256) {s t : List UInt8} (h : a < b ∨ a = b ∧ s < t) :
    UInt8.ofNat a :: s < UInt8.ofNat b :: t := by
  rw [List.cons_lt_cons_iff, UInt8.lt_iff_toNat_lt]
  rcases h with h | ⟨rfl, h⟩
  · left
    simp only [UInt8.toNat_ofNat']
    omega
  · exact Or.inr ⟨rfl, h⟩

/-- Where the digits above agree, the digits that follow decide. -/
theorem lowBytes_append_lt {count v w : Nat} (h : v < w) (hd : v / 64 ^ count = w / 64 ^ count)
    (s t : List UInt8) : lowBytes count v ++ s < lowBytes count w ++ t := by
  induction count with
  | zero =>
    rw [pow_zero, Nat.div_one, Nat.div_one] at hd
    omega
  | succ count ih =>
    rw [pow_succ, ← Nat.div_div_eq_div_mul, ← Nat.div_div_eq_div_mul] at hd
    have hle : v / 64 ^ count ≤ w / 64 ^ count := Nat.div_le_div_right h.le
    refine byte_cons_lt (by omega) ?_
    rcases hle.lt_or_eq with hlt | heq
    · exact Or.inl (by omega)
    · exact Or.inr ⟨by rw [heq], ih heq⟩

theorem highByte_lt_of_lowCount_lt {v w : Nat} (hw : w < 0x110000) (h : lowCount v < lowCount w) :
    highByte v < highByte w := by
  unfold highByte
  unfold lowCount at h ⊢
  split_ifs at h ⊢ <;> simp only [mark] <;> omega

theorem lowCount_mono {v w : Nat} (h : v ≤ w) : lowCount v ≤ lowCount w := by
  unfold lowCount
  split_ifs <;> omega

theorem utf8EncodeChar_append_lt {c d : Char} (h : c.toNat < d.toNat) (s t : List UInt8) :
    String.utf8EncodeChar c ++ s < String.utf8EncodeChar d ++ t := by
  have hd := toNat_lt d
  rw [utf8EncodeChar_eq, utf8EncodeChar_eq]
  refine byte_cons_lt (highByte_lt hd) ?_
  rcases (lowCount_mono h.le).lt_or_eq with hlt | heq
  · exact Or.inl (highByte_lt_of_lowCount_lt hd hlt)
  · have hle : c.toNat / 64 ^ lowCount d.toNat ≤ d.toNat / 64 ^ lowCount d.toNat := Nat.div_le_div_right h.le
    rw [highByte, highByte, heq]
    rcases hle.lt_or_eq with hlow | heq'
    · exact Or.inl (Nat.add_lt_add_right hlow _)
    · exact Or.inr ⟨by rw [heq'], lowBytes_append_lt h heq' s t⟩

theorem flatMap_utf8EncodeChar_lt {a b : List Char} (h : a < b) :
    a.flatMap String.utf8EncodeChar < b.flatMap String.utf8EncodeChar := by
  induction h with
  | nil =>
    rename_i d b
    rw [List.flatMap_nil, List.flatMap_cons]
    cases hd : String.utf8EncodeChar d with
    | nil => exact absurd hd String.utf8EncodeChar_ne_nil
    | cons => exact .nil
  | rel hcd => exact utf8EncodeChar_append_lt (UInt32.lt_iff_toNat_lt.mp hcd) _ _
  | cons _ ih => exact List.append_left_lt ih

/-- The order of strings is the order of their bytes. -/
theorem bytes_lt_of_lt {s t : String} (h : s < t) : bytes s < bytes t := by
  rw [bytes_eq, bytes_eq]
  exact flatMap_utf8EncodeChar_lt h

end FileFixture.Text
