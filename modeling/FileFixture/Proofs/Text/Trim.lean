import FileFixture.Text.Blank
import Mathlib.Data.List.DropRight

/-!
Trimming as an action on texts: white space at either end does not matter, white space between two other
characters stays, and what has been trimmed once is trimmed.
-/
namespace FileFixture.Text

theorem allBlank_iff {text : List Char} : allBlank text = true ↔ ∀ c ∈ text, isBlank c = true :=
  List.all_eq_true

@[simp] theorem allBlank_nil : allBlank [] = true := rfl
@[simp] theorem allBlank_cons (c : Char) (text : List Char) :
    allBlank (c :: text) = (isBlank c && allBlank text) := rfl
@[simp] theorem allBlank_append (s t : List Char) :
    allBlank (s ++ t) = (allBlank s && allBlank t) := List.all_append

theorem ne_of_isBlank {d : Char} (hd : isBlank d = false) : ∀ c, isBlank c = true → c ≠ d := by
  rintro c hc rfl
  rw [hc] at hd
  cases hd

theorem trimStart_eq_nil_iff {text : List Char} : trimStart text = [] ↔ allBlank text = true := by
  rw [trimStart, List.dropWhile_eq_nil_iff, allBlank_iff]

theorem trimStart_append (s t : List Char) :
    trimStart (s ++ t) = if allBlank s then trimStart t else trimStart s ++ t := by
  rw [trimStart, List.dropWhile_append]
  by_cases h : allBlank s = true
  · have hs : s.dropWhile isBlank = [] := trimStart_eq_nil_iff.mpr h
    simp [hs, h, trimStart]
  · have hs : s.dropWhile isBlank ≠ [] := fun hn => h (trimStart_eq_nil_iff.mp hn)
    simp [hs, h, trimStart]

theorem trimEnd_concat (text : List Char) (c : Char) :
    trimEnd (text ++ [c]) = if isBlank c then trimEnd text else text ++ [c] :=
  List.rdropWhile_concat isBlank text c

/-- The two ends are trimmed independently of each other. -/
theorem trimStart_trimEnd (text : List Char) : trimStart (trimEnd text) = trimEnd (trimStart text) := by
  induction text using List.reverseRecOn with
  | nil => rfl
  | append_singleton text c ih =>
    rw [trimEnd_concat, trimStart_append]
    by_cases hc : isBlank c = true
    · by_cases ht : allBlank text = true
      · have hs : trimStart text = [] := trimStart_eq_nil_iff.mpr ht
        simp [hc, ht, ih, hs, trimStart_cons]
      · simp [hc, ht, ih, trimEnd_concat]
    · by_cases ht : allBlank text = true
      · simp [hc, ht, trimStart_append, trimStart_cons, trimEnd]
      · simp [hc, ht, trimStart_append, trimEnd_concat]

@[simp] theorem trimStart_trimStart (text : List Char) : trimStart (trimStart text) = trimStart text :=
  List.dropWhile_idempotent isBlank text

@[simp] theorem trimEnd_trimEnd (text : List Char) : trimEnd (trimEnd text) = trimEnd text :=
  List.rdropWhile_idempotent isBlank text

@[simp] theorem trim_trim (text : List Char) : trim (trim text) = trim text := by
  rw [trim, trim, trimStart_trimEnd, trimEnd_trimEnd, trimStart_trimStart]

theorem trimEnd_append (s t : List Char) :
    trimEnd (s ++ t) = if allBlank t then trimEnd s else s ++ trimEnd t := by
  induction t using List.reverseRecOn with
  | nil => simp
  | append_singleton t c ih =>
    rw [← List.append_assoc, trimEnd_concat, trimEnd_concat, allBlank_append]
    by_cases hc : isBlank c = true
    · simp [hc, ih]
    · simp [hc]

theorem trim_append_left {w : List Char} (hw : allBlank w = true) (text : List Char) :
    trim (w ++ text) = trim text := by
  rw [trim, trimStart_append, if_pos hw, trim]

theorem trimEnd_append_right {w : List Char} (hw : allBlank w = true) (text : List Char) :
    trimEnd (text ++ w) = trimEnd text := by
  rw [trimEnd_append, if_pos hw]

theorem trim_append_right {w : List Char} (hw : allBlank w = true) (text : List Char) :
    trim (text ++ w) = trim text := by
  rw [trim, ← trimStart_trimEnd, trimEnd_append_right hw, trimStart_trimEnd, trim]

/-- White space around a text is taken away, and nothing else. -/
theorem trim_surround {v w : List Char} (hv : allBlank v = true) (hw : allBlank w = true)
    (text : List Char) : trim (v ++ text ++ w) = trim text := by
  rw [trim_append_right hw, trim_append_left hv]

theorem trim_eq_nil {text : List Char} (h : allBlank text = true) : trim text = [] := by
  rw [trim, trimStart_eq_nil_iff.mpr h, trimEnd_nil]

/-- Only white space is lost. -/
theorem mem_trimStart {c : Char} (hc : isBlank c = false) {text : List Char} : c ∈ trimStart text ↔ c ∈ text := by
  induction text with
  | nil => rfl
  | cons d text ih =>
    rw [trimStart_cons]
    split
    case isTrue hd => rw [ih, List.mem_cons, or_iff_right (ne_of_isBlank hc d hd).symm]
    case isFalse => rfl

theorem mem_trim {c : Char} (hc : isBlank c = false) {text : List Char} : c ∈ trim text ↔ c ∈ text := by
  rw [trim, trimEnd, List.mem_reverse, ← trimStart, mem_trimStart hc, List.mem_reverse, mem_trimStart hc]

/-- A trimmed text stays trimmed behind a text without white space at its own ends. -/
theorem trim_append_of_trimmed {s t : List Char} (hs : allBlank s = false) (hstart : trimStart s = s)
    (hend : trimEnd s = s) (ht : trim t = t) : trim (s ++ t) = s ++ t := by
  rw [trim, trimStart_append, if_neg (by simp [hs]), hstart, trimEnd_append]
  by_cases hb : allBlank t = true
  · have hn : t = [] := ht ▸ trim_eq_nil hb
    rw [if_pos hb, hend, hn, List.append_nil]
  · have he : trimEnd t = t := by rw [← ht, trim, trimEnd_trimEnd]
    rw [if_neg hb, he]

end FileFixture.Text
