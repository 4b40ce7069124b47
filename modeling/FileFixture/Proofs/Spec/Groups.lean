import FileFixture.Proofs.Spec.Grouped
import FileFixture.Proofs.Spec.Layout

/-!
Groups as they are written and read. The members of a group are what is between its commas, and a name with
up to two groups of different kinds after it is taken apart into just these.
-/
namespace FileFixture.Spec

open Text (allBlank trim trimStart)

theorem trim_around (m : Margin) (text : List Char) : trim (m.around text) = trim text :=
  Text.trim_surround m.before.blank m.after.blank text

theorem Nested.around {outside : Char → Prop} {text : List Char} (ht : Nested outside text)
    (h : ∀ c, Text.isBlank c = true → outside c) (m : Margin) : Nested outside (m.around text) :=
  ((of_allBlank m.before.blank h).append ht).append (of_allBlank m.after.blank h)

section Members

variable {ifEmpty : Option Gap} {members : List (List Char)} {inside : List Char}

theorem groupInside_of_ne_nil (ifEmpty : Option Gap) (h : members ≠ []) :
    groupInside ifEmpty members = some ([','].intercalate members) := by
  cases members with
  | nil => exact absurd rfl h
  | cons => rfl

theorem members_of_groupInside_none (h : groupInside ifEmpty members = none) : members = [] := by
  by_contra hne
  rw [groupInside_of_ne_nil ifEmpty hne] at h
  cases h

theorem nested_groupInside (h : ∀ m ∈ members, Nested (· ≠ ',') m) :
    ∀ i ∈ groupInside ifEmpty members, Nested (fun _ => True) i := by
  intro i hi
  by_cases hne : members = []
  · subst hne
    obtain ⟨g, -, rfl⟩ := Option.map_eq_some_iff.mp hi
    exact .of_allBlank g.blank fun _ _ => trivial
  · rw [groupInside_of_ne_nil ifEmpty hne] at hi
    obtain rfl := Option.some.inj hi
    exact .intercalate (by decide) (by decide) h

/-- Splitting gives the members back; a group without any has one piece of white space in it. -/
theorem split_groupInside (h : ∀ m ∈ members, Nested (· ≠ ',') m)
    (hi : groupInside ifEmpty members = some inside) :
    split ',' inside = members ∨ members = [] ∧ ∃ g : Gap, split ',' inside = [g.text] := by
  by_cases hne : members = []
  · subst hne
    obtain ⟨g, -, rfl⟩ := Option.map_eq_some_iff.mp hi
    have hg : Nested (· ≠ ',') g.text :=
      .of_allBlank g.blank (Text.ne_of_isBlank (by decide))
    exact Or.inr ⟨rfl, g, hg.split_eq_singleton⟩
  · rw [groupInside_of_ne_nil ifEmpty hne] at hi
    obtain rfl := Option.some.inj hi
    exact Or.inl (Nested.split_intercalate (by decide) hne h)

end Members

theorem ofText_plain {text : List Char} (h : ∀ c ∈ text, isOpener c = false) :
    Segment.ofText text = Segment.literal text := by
  have hd : text.dropWhile (!isOpener ·) = [] := List.dropWhile_eq_nil_iff.mpr (by simpa using h)
  simp [Segment.ofText, Segment.grouped?, hd, group?]

/-- A name and up to two groups of different kinds are read as they were written. -/
theorem ofText_enclose {a b : Bracket} (hab : a ≠ b) {pre between rest : List Char}
    (hpre : ∀ c ∈ pre, isOpener c = false) {first second : Option (List Char)}
    (hfirst : ∀ i ∈ first, Nested (fun _ => True) i) (hsecond : ∀ i ∈ second, Nested (fun _ => True) i)
    (hbetween : allBlank between = true) (hrest : allBlank rest = true) :
    Segment.ofText (pre ++ enclose a first ++ between ++ enclose b second ++ rest) =
      match a with
      | .round => ⟨trim pre, first, second⟩
      | .square => ⟨trim pre, second, first⟩ := by
  have hplain : ∀ w, allBlank w = true → ∀ c ∈ w, isOpener c = false := fun w hw c hc =>
    not_isOpener_of_isBlank (Text.allBlank_iff.mp hw c hc)
  cases first with
  | none =>
    have hpre' : ∀ c ∈ pre ++ between, isOpener c = false := by
      simpa [or_imp, forall_and] using And.intro hpre (hplain between hbetween)
    cases second with
    | none =>
      have hall : ∀ c ∈ pre ++ between ++ rest, isOpener c = false := by
        intro c hc
        rcases List.mem_append.mp hc with hc | hc
        · exact hpre' c hc
        · exact hplain rest hrest c hc
      have htrim : trim (pre ++ between ++ rest) = trim pre := by
        rw [Text.trim_append_right hrest, Text.trim_append_right hbetween]
      simp only [enclose, List.append_nil]
      rw [ofText_plain hall, Segment.literal, htrim]
      cases a <;> rfl
    | some inside =>
      have h := Segment.ofText_of_grouped (.one hpre' ((hsecond inside rfl).encloses b) hrest)
      rw [Text.trim_append_right hbetween] at h
      simp only [enclose, List.append_nil]
      cases a with
      | round =>
        cases b with
        | round => exact absurd rfl hab
        | square => simpa [Segment.ofGroup] using h
      | square =>
        cases b with
        | round => simpa [Segment.ofGroup] using h
        | square => exact absurd rfl hab
  | some inside =>
    cases second with
    | none =>
      have hrest' : allBlank (between ++ rest) = true := by simp [hbetween, hrest]
      have h := Segment.ofText_of_grouped (.one hpre ((hfirst inside rfl).encloses a) hrest')
      cases a <;> simpa [enclose, Segment.ofGroup] using h
    | some inside' =>
      have h := Segment.ofText_of_grouped (.two hab hpre ((hfirst inside rfl).encloses a) hbetween
        ((hsecond inside' rfl).encloses b) hrest)
      cases a <;> simpa [enclose, Segment.ofGroups] using h

end FileFixture.Spec
