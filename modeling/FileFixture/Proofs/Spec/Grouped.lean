import FileFixture.Proofs.Spec.Pieces

/-!
What a segment with groups looks like. It is a name without any opening bracket, a group, white space and, it may be,
a group of the other kind with white space after it; each group ends where its own bracket is closed. A text is taken
apart into groups just when it has this form.
-/
namespace FileFixture.Spec

open Text (isBlank allBlank trim trimStart)

section Name

variable {pre : List Char}

theorem takeWhile_name (hpre : ∀ c ∈ pre, isOpener c = false) (b : Bracket) (rest : List Char) :
    (pre ++ b.opener :: rest).takeWhile (!isOpener ·) = pre := by
  rw [List.takeWhile_append_of_pos (by simpa using hpre), List.takeWhile_cons]
  simp

theorem dropWhile_name (hpre : ∀ c ∈ pre, isOpener c = false) (b : Bracket) (rest : List Char) :
    (pre ++ b.opener :: rest).dropWhile (!isOpener ·) = b.opener :: rest := by
  rw [List.dropWhile_append_of_pos (by simpa using hpre), List.dropWhile_cons]
  simp

end Name

namespace Segment

/-- The text is a name with one group or with two, and this is the segment that they make. -/
inductive Grouped : List Char → Segment → Prop
  | one {pre inside rest : List Char} {b : Bracket} : (∀ c ∈ pre, isOpener c = false) → b.Encloses inside →
      allBlank rest = true →
      Grouped (pre ++ b.opener :: (inside ++ b.closer :: rest)) (ofGroup (trim pre) b inside)
  | two {pre inside between inside' rest : List Char} {a b : Bracket} : a ≠ b → (∀ c ∈ pre, isOpener c = false) →
      a.Encloses inside → allBlank between = true → b.Encloses inside' → allBlank rest = true →
      Grouped (pre ++ a.opener :: (inside ++ a.closer :: (between ++ b.opener :: (inside' ++ b.closer :: rest))))
        (ofGroups (trim pre) a inside inside')

theorem isBlank_opener (b : Bracket) : isBlank b.opener = false := by cases b <;> decide

theorem trimStart_group {between : List Char} (h : allBlank between = true) (b : Bracket) (rest : List Char) :
    trimStart (between ++ b.opener :: rest) = b.opener :: rest := by
  rw [Text.trimStart_append, if_pos h, Text.trimStart_cons, isBlank_opener]
  rfl

theorem grouped_of_eq_some {text : List Char} {s : Segment} (h : grouped? text = some s) : Grouped text s := by
  have hpre : ∀ c ∈ text.takeWhile (!isOpener ·), isOpener c = false := by
    intro c hc
    simpa using List.mem_takeWhile_imp hc
  have htext : text.takeWhile (!isOpener ·) ++ text.dropWhile (!isOpener ·) = text :=
    List.takeWhile_append_dropWhile
  unfold grouped? at h
  obtain ⟨⟨a, inside, rest⟩, hg, h⟩ := Option.bind_eq_some_iff.mp h
  obtain ⟨hdrop, ha⟩ := group?_eq_some_iff.mp hg
  dsimp only at h
  rw [← htext, hdrop]
  by_cases hr : allBlank rest = true
  · rw [if_pos hr, Option.some.injEq] at h
    rw [← h]
    exact .one hpre ha hr
  · rw [if_neg hr] at h
    obtain ⟨⟨b, inside', rest'⟩, hg', h⟩ := Option.bind_eq_some_iff.mp h
    obtain ⟨hrest, hb⟩ := group?_eq_some_iff.mp hg'
    dsimp only at h
    have hbetween : allBlank (rest.takeWhile isBlank) = true :=
      Text.allBlank_iff.mpr fun c hc => List.mem_takeWhile_imp hc
    have hsplit : rest.takeWhile isBlank ++ trimStart rest = rest := List.takeWhile_append_dropWhile
    by_cases hc : a ≠ b ∧ allBlank rest' = true
    · rw [if_pos hc, Option.some.injEq] at h
      rw [← h, ← hsplit, hrest]
      exact .two hc.1 hpre ha hbetween hb hc.2
    · rw [if_neg hc] at h
      cases h

theorem grouped?_eq_some_iff {text : List Char} {s : Segment} : grouped? text = some s ↔ Grouped text s := by
  constructor
  · exact grouped_of_eq_some
  · rintro (⟨hpre, hi, hrest⟩ | ⟨hab, hpre, hi, hbetween, hi', hrest⟩)
    · simp [grouped?, takeWhile_name hpre, dropWhile_name hpre, group?_enclosed hi, hrest]
    · simp [grouped?, takeWhile_name hpre, dropWhile_name hpre, group?_enclosed hi, group?_enclosed hi',
        trimStart_group hbetween, isBlank_opener, hab, hrest]

theorem ofText_of_grouped {text : List Char} {s : Segment} (h : Grouped text s) : ofText text = s := by
  rw [ofText, grouped?_eq_some_iff.mpr h, Option.getD_some]

theorem grouped_or_literal (text : List Char) : Grouped text (ofText text) ∨ ofText text = literal text := by
  cases hs : grouped? text with
  | none =>
    right
    rw [ofText, hs, Option.getD_none]
  | some s =>
    left
    rw [ofText, hs, Option.getD_some]
    exact grouped_of_eq_some hs

/-- A segment has groups only if its text was taken apart into them. -/
theorem grouped_of_groups {text : List Char} (h : (ofText text).tags ≠ none ∨ (ofText text).children ≠ none) :
    Grouped text (ofText text) := by
  rcases grouped_or_literal text with hgrouped | hliteral
  · exact hgrouped
  · rw [hliteral] at h
    exact absurd h (by simp [literal])

theorem Grouped.groups {text : List Char} {s : Segment} (h : Grouped text s) : s.tags ≠ none ∨ s.children ≠ none := by
  cases h with
  | @one pre inside rest b => cases b <;> simp [ofGroup]
  | @two pre inside between inside' rest a b => cases a <;> simp [ofGroups]

theorem Grouped.trim_name {text : List Char} {s : Segment} (h : Grouped text s) : trim s.name = s.name := by
  cases h with
  | @one pre inside rest b => cases b <;> exact Text.trim_trim pre
  | @two pre inside between inside' rest a b => cases a <;> exact Text.trim_trim pre

end Segment
end FileFixture.Spec
