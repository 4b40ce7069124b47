import FileFixture.Spec.Bracket

/-!
Splitting, one piece at a time. A text is left whole, or it has a first piece, whose brackets are closed, a separator,
and a rest that is split anew. So the pieces of a text are known by themselves: each is left whole, and but for the
last, the brackets of each are closed. Any pieces of this kind are found again between separators.
-/
namespace FileFixture.Spec

variable {separator : Char} {depth : Nat}

theorem split_append (hsep : ¬(isOpener separator ∨ isCloser separator)) {s : List Char} (hs : depthAfter 0 s = 0)
    (t : List Char) : split separator (s ++ separator :: t) = split separator s ++ split separator t :=
  splitFrom_append hsep s t hs

/-- The end of the first piece is the first place where a separator stands outside all brackets. -/
theorem splitFrom_cases (separator : Char) (depth : Nat) (text : List Char) :
    splitFrom separator depth text = [text] ∨
      ∃ first rest, text = first ++ separator :: rest ∧ splitFrom separator depth first = [first] ∧
        depthAfter depth first = 0 ∧ splitFrom separator depth text = first :: split separator rest := by
  induction text generalizing depth with
  | nil => exact Or.inl rfl
  | cons c text ih =>
    rw [splitFrom_cons]
    split
    case isTrue hc =>
      obtain ⟨rfl, rfl, -⟩ := hc
      exact Or.inr ⟨[], text, rfl, rfl, rfl, rfl⟩
    case isFalse hc =>
      rcases ih (deepen depth c) with h | ⟨first, rest, rfl, hfirst, hdepth, h⟩
      · left
        rw [h]
        rfl
      · right
        refine ⟨c :: first, rest, rfl, ?_, hdepth, ?_⟩
        · rw [splitFrom_cons, if_neg hc, hfirst]
          rfl
        · rw [h]
          rfl

/-- Behind a text that is left whole, splitting goes on at the depth that it has led to. -/
theorem splitFrom_append_of_whole {s : List Char} (hs : splitFrom separator depth s = [s]) (t : List Char) :
    splitFrom separator depth (s ++ t) = (splitFrom separator (depthAfter depth s) t).modifyHead (s ++ ·) := by
  induction s generalizing depth with
  | nil => exact (congrFun List.modifyHead_id _).symm
  | cons c s ih =>
    rw [splitFrom_cons] at hs
    split at hs
    case isTrue => cases (List.cons.inj hs).1
    case isFalse hc =>
      have hwhole : splitFrom separator (deepen depth c) s = [s] := by
        cases hp : splitFrom separator (deepen depth c) s with
        | nil => exact absurd hp (splitFrom_ne_nil separator _ s)
        | cons p ps =>
          rw [hp, List.modifyHead_cons, List.cons.injEq, List.cons.injEq] at hs
          rw [hs.1.2, hs.2]
      rw [List.cons_append, splitFrom_cons, if_neg hc, ih hwhole, List.modifyHead_modifyHead]
      rfl

/-- What the pieces of a text have in common: another split leaves each of them whole, and all but the last have their
brackets closed. -/
inductive Parted (separator : Char) : List (List Char) → Prop
  | last {piece} : split separator piece = [piece] → Parted separator [piece]
  | cons {piece pieces} : split separator piece = [piece] → depthAfter 0 piece = 0 → Parted separator pieces →
      Parted separator (piece :: pieces)

theorem parted_split (separator : Char) (text : List Char) : Parted separator (split separator text) := by
  generalize hpieces : split separator text = pieces
  induction pieces generalizing text with
  | nil => exact absurd hpieces (splitFrom_ne_nil separator 0 text)
  | cons piece pieces ih =>
    rcases splitFrom_cases separator 0 text with h | ⟨first, rest, -, hfirst, hdepth, h⟩
    · obtain ⟨rfl, rfl⟩ := List.cons.inj (h.symm.trans hpieces)
      exact .last h
    · obtain ⟨rfl, hrest⟩ := List.cons.inj (h.symm.trans hpieces)
      exact .cons hfirst hdepth (ih rest hrest)

namespace Parted

variable {pieces : List (List Char)}

theorem of_forall (hne : pieces ≠ []) (h : ∀ p ∈ pieces, split separator p = [p] ∧ depthAfter 0 p = 0) :
    Parted separator pieces := by
  induction pieces with
  | nil => exact absurd rfl hne
  | cons p pieces ih =>
    obtain ⟨hp, hps⟩ := List.forall_mem_cons.mp h
    by_cases hn : pieces = []
    · rw [hn]
      exact .last hp.1
    · exact .cons hp.1 hp.2 (ih hn hps)

theorem ne_nil (h : Parted separator pieces) : pieces ≠ [] := by
  cases h <;> exact List.cons_ne_nil _ _

/-- Such pieces are found again. -/
theorem split_intercalate (hsep : ¬(isOpener separator ∨ isCloser separator)) (h : Parted separator pieces) :
    split separator ([separator].intercalate pieces) = pieces := by
  induction h with
  | last hp => simpa using hp
  | cons hp hdepth hps ih =>
    rw [List.intercalate_cons_of_ne_nil hps.ne_nil, List.append_assoc, List.singleton_append,
      split_append hsep hdepth, hp, ih, List.singleton_append]

/-- Pieces may be taken out, unless none would be left. -/
theorem filter (h : Parted separator pieces) (keep : List Char → Bool) (hne : pieces.filter keep ≠ []) :
    Parted separator (pieces.filter keep) := by
  induction h with
  | @last p hp =>
    rw [List.filter_cons] at hne ⊢
    split at hne
    case isTrue hk =>
      rw [if_pos hk]
      exact .last hp
    case isFalse => exact absurd rfl hne
  | @cons p pieces hp hdepth _ ih =>
    rw [List.filter_cons] at hne ⊢
    split at hne
    case isTrue hk =>
      rw [if_pos hk]
      by_cases hn : pieces.filter keep = []
      · rw [hn]
        exact .last hp
      · exact .cons hp hdepth (ih hn)
    case isFalse hk =>
      rw [if_neg hk]
      exact ih hne

/-- Another split leaves each of them whole. -/
theorem split_eq_singleton (h : Parted separator pieces) : ∀ piece ∈ pieces, split separator piece = [piece] := by
  induction h with
  | last hp => simpa using hp
  | cons hp _ _ ih => exact List.forall_mem_cons.mpr ⟨hp, ih⟩

theorem depthAfter_eq_zero (h : Parted separator pieces) : ∀ piece ∈ pieces.dropLast, depthAfter 0 piece = 0 := by
  induction h with
  | last => simp
  | cons _ hdepth hps ih =>
    rw [List.dropLast_cons_of_ne_nil hps.ne_nil]
    exact List.forall_mem_cons.mpr ⟨hdepth, ih⟩

end Parted

theorem intercalate_split (separator : Char) (text : List Char) :
    [separator].intercalate (split separator text) = text := by
  generalize hpieces : split separator text = pieces
  induction pieces generalizing text with
  | nil => exact absurd hpieces (splitFrom_ne_nil separator 0 text)
  | cons piece pieces ih =>
    rcases splitFrom_cases separator 0 text with h | ⟨first, rest, htext, -, -, h⟩
    · obtain ⟨rfl, rfl⟩ := List.cons.inj (h.symm.trans hpieces)
      simp
    · obtain ⟨rfl, hrest⟩ := List.cons.inj (h.symm.trans hpieces)
      have hne : pieces ≠ [] := hrest ▸ splitFrom_ne_nil separator 0 rest
      rw [List.intercalate_cons_of_ne_nil hne, ih rest hrest, htext, List.append_assoc, List.singleton_append]

/-- With separators between them the pieces are the text again. None of them can be split further, all but the last come
out even, and where a text comes out even, a separator behind it keeps its pieces apart from those of what follows. -/
theorem split_lossless_and_stable (hsep : ¬(isOpener separator ∨ isCloser separator)) (text : List Char) :
    [separator].intercalate (split separator text) = text ∧
    1 ≤ (split separator text).length ∧
    (∀ piece ∈ split separator text, split separator piece = [piece]) ∧
    (∀ piece ∈ (split separator text).dropLast, depthAfter 0 piece = 0) ∧
    ∀ s₁ s₂, depthAfter 0 s₁ = 0 →
      split separator (s₁ ++ separator :: s₂) = split separator s₁ ++ split separator s₂ := by
  have hparted : Parted separator (split separator text) := parted_split separator text
  refine ⟨intercalate_split separator text, ?_, hparted.split_eq_singleton, hparted.depthAfter_eq_zero, ?_⟩
  · exact List.length_pos_iff.mpr hparted.ne_nil
  · exact fun s₁ s₂ heven => split_append hsep heven s₂

/-- A closer with nothing to close, brackets that cross, an empty piece, and an opener that takes in all that follows. -/
theorem split_lossless_and_stable_unbalanced :
    let text := "é],(日,]b)],,[,(c".toList
    let crossed := "(日,]b)]".toList
    ¬(isOpener ',' ∨ isCloser ',') ∧ split ',' text = ["é]".toList, crossed, [], "[,(c".toList] ∧
    [','].intercalate ["é]".toList, crossed, [], "[,(c".toList] = text ∧
    split ',' crossed = [crossed] ∧ depthAfter 0 crossed = 0 ∧
    split ',' (crossed ++ ',' :: text) = crossed :: split ',' text := by
  intro text crossed
  have hcomma : ¬(isOpener ',' ∨ isCloser ',') := by decide
  have hpieces : split ',' text = ["é]".toList, crossed, [], "[,(c".toList] := by decide
  obtain ⟨hjoined, -, hwhole, heven, happend⟩ := split_lossless_and_stable hcomma text
  rw [hpieces] at hjoined hwhole heven
  have hcrossed : split ',' crossed = [crossed] := hwhole crossed (by simp)
  have hdepth : depthAfter 0 crossed = 0 := heven crossed (by simp)
  refine ⟨hcomma, hpieces, hjoined, hcrossed, hdepth, ?_⟩
  rw [happend crossed text hdepth, hcrossed, List.singleton_append]

end FileFixture.Spec
