import FileFixture.Proofs.Spec.Splitting
import FileFixture.Proofs.Text.Trim
import FileFixture.Spec.Segment

/-!
Texts with properly nested brackets. Both counts pass over such a text and are afterwards what they were
before, so no separator inside its brackets splits it and no closer inside them closes a group around it.
-/
namespace FileFixture.Spec

/-- Round and square brackets are properly nested in the text, and the characters that stand outside of all
brackets are of a certain kind. -/
inductive Nested : (outside : Char → Prop) → List Char → Prop
  | nil {outside} : Nested outside []
  | plain {outside c text} : isOpener c = false → isCloser c = false → outside c →
      Nested outside text → Nested outside (c :: text)
  | group {outside inside text} (b : Bracket) : Nested (fun _ => True) inside →
      Nested outside text → Nested outside (b.opener :: (inside ++ b.closer :: text))

namespace Bracket

@[simp] theorem isOpener_opener (b : Bracket) : isOpener b.opener = true := by cases b <;> rfl
@[simp] theorem isCloser_opener (b : Bracket) : isCloser b.opener = false := by cases b <;> rfl
@[simp] theorem isOpener_closer (b : Bracket) : isOpener b.closer = false := by cases b <;> rfl
@[simp] theorem isCloser_closer (b : Bracket) : isCloser b.closer = true := by cases b <;> rfl

theorem opener_ne_closer (a b : Bracket) : a.opener ≠ b.closer := by
  cases a <;> cases b <;> decide

theorem closer_ne_opener (a b : Bracket) : a.closer ≠ b.opener := Ne.symm (opener_ne_closer b a)

theorem opener_inj {a b : Bracket} : a.opener = b.opener ↔ a = b := by
  cases a <;> cases b <;> decide

theorem closer_inj {a b : Bracket} : a.closer = b.closer ↔ a = b := by
  cases a <;> cases b <;> decide

theorem ne_opener_of_not_isOpener {c : Char} (h : isOpener c = false) (b : Bracket) :
    c ≠ b.opener := fun he => by simp [he] at h

theorem ne_closer_of_not_isCloser {c : Char} (h : isCloser c = false) (b : Bracket) :
    c ≠ b.closer := fun he => by simp [he] at h

theorem reach?_opener (b : Bracket) (inner : Nat) (text : List Char) :
    b.reach? inner (b.opener :: text) = (b.reach? (inner + 1) text).map (· + 1) := by
  simp [reach?]

theorem reach?_closer_zero (b : Bracket) (text : List Char) :
    b.reach? 0 (b.closer :: text) = some 0 := by
  simp [reach?, closer_ne_opener]

theorem reach?_closer_succ (b : Bracket) (inner : Nat) (text : List Char) :
    b.reach? (inner + 1) (b.closer :: text) = (b.reach? inner text).map (· + 1) := by
  simp [reach?, closer_ne_opener]

theorem reach?_other {b : Bracket} {c : Char} (ho : c ≠ b.opener) (hc : c ≠ b.closer) (inner : Nat)
    (text : List Char) : b.reach? inner (c :: text) = (b.reach? inner text).map (· + 1) := by
  simp [reach?, ho, hc]

/-- The closer that is found stands in the text, and what comes behind it has no part in finding it. -/
theorem reach?_eq_some {b : Bracket} {inner n : Nat} {text : List Char} (h : b.reach? inner text = some n) :
    ∃ inside rest, text = inside ++ b.closer :: rest ∧ inside.length = n ∧
      ∀ more, b.reach? inner (inside ++ b.closer :: more) = some n := by
  induction text generalizing inner n with
  | nil => simp [reach?] at h
  | cons c text ih =>
    by_cases ho : c = b.opener
    · subst ho
      rw [reach?_opener, Option.map_eq_some_iff] at h
      obtain ⟨m, hm, rfl⟩ := h
      obtain ⟨inside, rest, rfl, rfl, hmore⟩ := ih hm
      refine ⟨b.opener :: inside, rest, rfl, rfl, fun more => ?_⟩
      rw [List.cons_append, reach?_opener, hmore, Option.map_some]
    · by_cases hc : c = b.closer
      · subst hc
        cases inner with
        | zero =>
          rw [reach?_closer_zero, Option.some.injEq] at h
          subst h
          exact ⟨[], text, rfl, rfl, reach?_closer_zero b⟩
        | succ inner =>
          rw [reach?_closer_succ, Option.map_eq_some_iff] at h
          obtain ⟨m, hm, rfl⟩ := h
          obtain ⟨inside, rest, rfl, rfl, hmore⟩ := ih hm
          refine ⟨b.closer :: inside, rest, rfl, rfl, fun more => ?_⟩
          rw [List.cons_append, reach?_closer_succ, hmore, Option.map_some]
      · rw [reach?_other ho hc, Option.map_eq_some_iff] at h
        obtain ⟨m, hm, rfl⟩ := h
        obtain ⟨inside, rest, rfl, rfl, hmore⟩ := ih hm
        refine ⟨c :: inside, rest, rfl, rfl, fun more => ?_⟩
        rw [List.cons_append, reach?_other ho hc, hmore, Option.map_some]

/-- The first closer behind this text that closes an open bracket before it stands at its end. -/
def Encloses (b : Bracket) (inside : List Char) : Prop :=
  ∀ rest, b.reach? 0 (inside ++ b.closer :: rest) = some inside.length

end Bracket

theorem not_isOpener_of_isBlank {c : Char} (h : Text.isBlank c = true) : isOpener c = false := by
  rw [isOpener, Bool.or_eq_false_iff, beq_eq_false_iff_ne, beq_eq_false_iff_ne]
  constructor <;> rintro rfl <;> exact absurd h (by decide)

theorem not_isCloser_of_isBlank {c : Char} (h : Text.isBlank c = true) : isCloser c = false := by
  rw [isCloser, Bool.or_eq_false_iff, beq_eq_false_iff_ne, beq_eq_false_iff_ne]
  constructor <;> rintro rfl <;> exact absurd h (by decide)

namespace Nested

variable {outside : Char → Prop} {s t inside : List Char}

theorem append (hs : Nested outside s) (ht : Nested outside t) : Nested outside (s ++ t) := by
  induction hs with
  | nil => exact ht
  | plain ho hc hp _ ih => exact .plain ho hc hp (ih ht)
  | group b hi _ _ ih =>
    rw [List.cons_append, List.append_assoc, List.cons_append]
    exact .group b hi (ih ht)

theorem mono {kind : Char → Prop} (h : ∀ c, outside c → kind c) (hs : Nested outside s) :
    Nested kind s := by
  induction hs with
  | nil => exact .nil
  | plain ho hc hp _ ih => exact .plain ho hc (h _ hp) (ih h)
  | group b hi _ _ ih => exact .group b hi (ih h)

theorem of_plain (h : ∀ c ∈ s, isOpener c = false ∧ isCloser c = false ∧ outside c) :
    Nested outside s := by
  induction s with
  | nil => exact .nil
  | cons c s ih =>
    obtain ⟨hc, hs⟩ := List.forall_mem_cons.mp h
    exact .plain hc.1 hc.2.1 hc.2.2 (ih hs)

theorem of_allBlank (hs : Text.allBlank s = true) (h : ∀ c, Text.isBlank c = true → outside c) :
    Nested outside s := by
  rw [Text.allBlank_iff] at hs
  exact of_plain fun c hc =>
    ⟨not_isOpener_of_isBlank (hs c hc), not_isCloser_of_isBlank (hs c hc), h c (hs c hc)⟩

theorem enclosed (b : Bracket) (hi : Nested (fun _ => True) inside) :
    Nested outside (b.opener :: (inside ++ [b.closer])) := .group b hi .nil

theorem intercalate {separator : Char} (ho : isOpener separator = false)
    (hc : isCloser separator = false) {pieces : List (List Char)}
    (h : ∀ p ∈ pieces, Nested outside p) :
    Nested (fun _ => True) ([separator].intercalate pieces) := by
  induction pieces with
  | nil => exact .nil
  | cons p pieces ih =>
    obtain ⟨hp, hps⟩ := List.forall_mem_cons.mp h
    have hp' : Nested (fun _ => True) p := hp.mono fun _ _ => trivial
    by_cases hn : pieces = []
    · simpa [hn] using hp'
    · rw [List.intercalate_cons_of_ne_nil hn]
      exact (hp'.append (.plain ho hc trivial .nil)).append (ih hps)

/-- A nested text leaves the depth as it was, wherever it stands. -/
theorem depthAfter_eq (hs : Nested outside s) (depth : Nat) : depthAfter depth s = depth := by
  induction hs generalizing depth with
  | nil => rfl
  | plain ho hc _ _ ih => simpa [deepen, ho, hc] using ih depth
  | group b _ _ hi ht => simp [depthAfter_append, deepen, hi, ht]

/-- A nested text is never split: inside its brackets the depth is positive, and outside of them there is
no separator if the text stands at depth zero. -/
theorem splitFrom_append {separator : Char} {depth : Nat} (hs : Nested outside s)
    (h : depth = 0 → ∀ c, outside c → c ≠ separator) (rest : List Char) :
    splitFrom separator depth (s ++ rest) = (splitFrom separator depth rest).modifyHead (s ++ ·) := by
  induction hs generalizing depth rest with
  | nil => exact (congrFun List.modifyHead_id _).symm
  | @plain outside c s ho hc hp _ ih =>
    have hd : deepen depth c = depth := by simp [deepen, ho, hc]
    have hn : ¬(c = separator ∧ depth = 0 ∧ ¬(isOpener c ∨ isCloser c)) := fun hc' =>
      h hc'.2.1 c hp hc'.1
    rw [List.cons_append, splitFrom_cons, if_neg hn, hd, ih h, List.modifyHead_modifyHead]
    rfl
  | @group outside inside s b _ _ hi ht =>
    have ho : ¬(b.opener = separator ∧ depth = 0 ∧ ¬(isOpener b.opener ∨ isCloser b.opener)) := by simp
    have hc : ¬(b.closer = separator ∧ depth + 1 = 0 ∧ ¬(isOpener b.closer ∨ isCloser b.closer)) := by
      simp
    have hdo : deepen depth b.opener = depth + 1 := by simp [deepen]
    have hdc : deepen (depth + 1) b.closer = depth := by simp [deepen]
    rw [List.cons_append, splitFrom_cons, if_neg ho, hdo, List.append_assoc, hi (by simp),
      List.cons_append, splitFrom_cons, if_neg hc, hdc, ht h]
    simp only [List.modifyHead_modifyHead]
    congr 1
    funext p
    simp

theorem split_eq_singleton {separator : Char} (hs : Nested (· ≠ separator) s) :
    split separator s = [s] := by
  have h : splitFrom separator 0 (s ++ []) = (splitFrom separator 0 []).modifyHead (s ++ ·) :=
    hs.splitFrom_append (fun _ _ hc => hc) []
  simpa [split] using h

/-- Nested pieces with separators between them are what splitting gives back. -/
theorem split_intercalate {separator : Char} (hsep : ¬(isOpener separator ∨ isCloser separator))
    {pieces : List (List Char)} (hne : pieces ≠ []) (h : ∀ p ∈ pieces, Nested (· ≠ separator) p) :
    split separator ([separator].intercalate pieces) = pieces :=
  (Parted.of_forall hne fun p hp => ⟨(h p hp).split_eq_singleton, (h p hp).depthAfter_eq 0⟩).split_intercalate hsep

/-- The search for a closer passes over a nested text. -/
theorem reach?_append (hs : Nested outside s) (b : Bracket) (inner : Nat) (rest : List Char) :
    b.reach? inner (s ++ rest) = (b.reach? inner rest).map (s.length + ·) := by
  induction hs generalizing inner rest with
  | nil => simp
  | plain ho hc _ _ ih =>
    rw [List.cons_append, Bracket.reach?_other (Bracket.ne_opener_of_not_isOpener ho b)
      (Bracket.ne_closer_of_not_isCloser hc b), ih]
    simp [Function.comp_def, Nat.add_right_comm]
  | group a _ _ hi ht =>
    rw [List.cons_append, List.append_assoc, List.cons_append]
    by_cases hab : a = b
    · subst hab
      rw [Bracket.reach?_opener, hi, Bracket.reach?_closer_succ, ht]
      simp only [Option.map_map, List.length_cons, List.length_append]
      congr 1
      funext n
      simp only [Function.comp]
      omega
    · have ho : a.closer ≠ b.closer := fun h => hab (Bracket.closer_inj.mp h)
      have hc : a.opener ≠ b.opener := fun h => hab (Bracket.opener_inj.mp h)
      rw [Bracket.reach?_other hc (Bracket.opener_ne_closer a b), hi,
        Bracket.reach?_other (Bracket.closer_ne_opener a b) ho, ht]
      simp only [Option.map_map, List.length_cons, List.length_append]
      congr 1
      funext n
      simp only [Function.comp]
      omega

theorem encloses (hs : Nested outside s) (b : Bracket) : b.Encloses s := by
  intro rest
  rw [hs.reach?_append, Bracket.reach?_closer_zero]
  rfl

end Nested

end FileFixture.Spec
