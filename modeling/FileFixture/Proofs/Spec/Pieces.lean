import FileFixture.Proofs.Spec.Nested
import FileFixture.Spec.Declaration

/-!
The pieces of a path spec. White space at the ends of a segment does not matter, so neither does white space
at the ends of the whole text; and a slash at the head of it only adds a piece that goes nowhere. A spec
declares what the segments of its pieces declare, as they stand.
-/
namespace FileFixture.Spec

open Text (isBlank allBlank trim trimStart)

namespace Bracket

theorem reach?_lt {b : Bracket} {inner n : Nat} {text : List Char}
    (h : b.reach? inner text = some n) : n < text.length := by
  obtain ⟨inside, rest, rfl, rfl, -⟩ := reach?_eq_some h
  simp

/-- A character that is no bracket neither closes a group nor keeps one open. -/
theorem reach?_concat (b : Bracket) {c : Char} (ho : isOpener c = false) (hc : isCloser c = false)
    (inner : Nat) (text : List Char) : b.reach? inner (text ++ [c]) = b.reach? inner text := by
  induction text generalizing inner with
  | nil =>
    rw [List.nil_append, reach?_other (ne_opener_of_not_isOpener ho b) (ne_closer_of_not_isCloser hc b)]
    rfl
  | cons a text ih =>
    rw [List.cons_append]
    by_cases hao : a = b.opener
    · subst hao
      rw [reach?_opener, reach?_opener, ih]
    · by_cases hac : a = b.closer
      · subst hac
        cases inner with
        | zero => rw [reach?_closer_zero, reach?_closer_zero]
        | succ inner => rw [reach?_closer_succ, reach?_closer_succ, ih]
      · rw [reach?_other hao hac, reach?_other hao hac, ih]

end Bracket

theorem group?_cons (c : Char) (text : List Char) :
    group? (c :: text) = (Bracket.ofOpener? c).bind fun b =>
      (b.reach? 0 text).map fun n => (b, text.take n, text.drop (n + 1)) := by
  cases hb : Bracket.ofOpener? c with
  | none => simp [group?, hb]
  | some b =>
    cases hn : b.reach? 0 text with
    | none => simp [group?, closing?, hb, hn]
    | some n =>
      have hc : closing? (c :: text) 0 = some (n + 1) := by simp [closing?, hb, hn, Nat.add_comm]
      simp [group?, hb, hn, hc]

/-- A group is a text that a bracket and its closer enclose. -/
theorem group?_eq_some_iff {text : List Char} {b : Bracket} {inside rest : List Char} :
    group? text = some (b, inside, rest) ↔ text = b.opener :: (inside ++ b.closer :: rest) ∧ b.Encloses inside := by
  constructor
  · intro h
    cases text with
    | nil => cases h
    | cons c text =>
      rw [group?_cons, Option.bind_eq_some_iff] at h
      obtain ⟨b', hb, h⟩ := h
      obtain ⟨n, hn, h⟩ := Option.map_eq_some_iff.mp h
      obtain ⟨inside', rest', rfl, rfl, hmore⟩ := Bracket.reach?_eq_some hn
      obtain rfl := Bracket.ofOpener?_eq_some_iff.mp hb
      have htake : (inside' ++ b'.closer :: rest').take inside'.length = inside' := by simp
      have hdrop : (inside' ++ b'.closer :: rest').drop (inside'.length + 1) = rest' := by simp [List.drop_append]
      rw [htake, hdrop, Prod.mk.injEq, Prod.mk.injEq] at h
      obtain ⟨rfl, rfl, rfl⟩ := h
      exact ⟨rfl, hmore⟩
  · rintro ⟨rfl, h⟩
    simp [group?_cons, h rest, List.drop_append]

theorem group?_enclosed {b : Bracket} {inside : List Char} (h : b.Encloses inside) (rest : List Char) :
    group? (b.opener :: (inside ++ b.closer :: rest)) = some (b, inside, rest) :=
  group?_eq_some_iff.mpr ⟨rfl, h⟩

theorem group?_concat {c : Char} (hc : isBlank c = true) {text : List Char} (hne : text ≠ []) :
    group? (text ++ [c]) = (group? text).map fun g => (g.1, g.2.1, g.2.2 ++ [c]) := by
  cases text with
  | nil => exact absurd rfl hne
  | cons a text =>
    rw [List.cons_append, group?_cons, group?_cons]
    cases hb : Bracket.ofOpener? a with
    | none => rfl
    | some b =>
      rw [Option.bind_some, Option.bind_some,
        b.reach?_concat (not_isOpener_of_isBlank hc) (not_isCloser_of_isBlank hc)]
      cases hn : b.reach? 0 text with
      | none => rfl
      | some n =>
        have hlt : n < text.length := Bracket.reach?_lt hn
        simp only [Option.map_some, Option.some.injEq, Prod.mk.injEq, true_and]
        exact ⟨List.take_append_of_le_length (by omega), List.drop_append_of_le_length (by omega)⟩

namespace Segment

theorem grouped?_blank_cons {c : Char} (hc : isBlank c = true) (text : List Char) :
    grouped? (c :: text) = grouped? text := by
  have ho : isOpener c = false := not_isOpener_of_isBlank hc
  have htrim : ∀ t, trim (c :: t) = trim t := fun t => Text.trim_append_left (w := [c]) (by simp [hc]) t
  simp [grouped?, ho, htrim]

theorem grouped?_concat_blank {c : Char} (hc : isBlank c = true) (text : List Char) :
    grouped? (text ++ [c]) = grouped? text := by
  have ho : isOpener c = false := not_isOpener_of_isBlank hc
  by_cases hu : text.dropWhile (!isOpener ·) = []
  · -- no group begins in either text
    have hu' : (text ++ [c]).dropWhile (!isOpener ·) = [] := by
      rw [List.dropWhile_append, hu]
      simp [ho]
    simp [grouped?, hu, hu', group?]
  · have hdrop : (text ++ [c]).dropWhile (!isOpener ·) = text.dropWhile (!isOpener ·) ++ [c] := by
      rw [List.dropWhile_append, if_neg (by simpa using hu)]
    have htake : (text ++ [c]).takeWhile (!isOpener ·) = text.takeWhile (!isOpener ·) := by
      rw [List.takeWhile_append, if_neg]
      intro hlen
      have hlen' := congrArg List.length (List.takeWhile_append_dropWhile (p := (!isOpener ·)) (l := text))
      rw [List.length_append, hlen] at hlen'
      exact hu (List.length_eq_zero_iff.mp (by omega))
    rw [grouped?, grouped?, hdrop, htake, group?_concat hc hu]
    cases hg : group? (text.dropWhile (!isOpener ·)) with
    | none => rfl
    | some g =>
      obtain ⟨first, inside, rest⟩ := g
      by_cases hr : allBlank rest = true
      · simp [hr, hc]
      · have hs : trimStart rest ≠ [] := fun h => hr (Text.trimStart_eq_nil_iff.mp h)
        have hs' : trimStart (rest ++ [c]) = trimStart rest ++ [c] := by
          rw [Text.trimStart_append, if_neg hr]
        cases hg' : group? (trimStart rest) <;> simp [hr, hc, hs', group?_concat hc hs, hg']

theorem ofText_blank_cons {c : Char} (hc : isBlank c = true) (text : List Char) :
    ofText (c :: text) = ofText text := by
  have htrim : trim (c :: text) = trim text := Text.trim_append_left (w := [c]) (by simp [hc]) text
  rw [ofText, grouped?_blank_cons hc, literal, htrim]
  rfl

theorem ofText_concat_blank {c : Char} (hc : isBlank c = true) (text : List Char) :
    ofText (text ++ [c]) = ofText text := by
  rw [ofText, grouped?_concat_blank hc, literal, Text.trim_append_right (by simp [hc])]
  rfl

end Segment

/-- The segments of a text, one for each of its pieces between top-level slashes. -/
def pieceSegments (text : List Char) : List Segment := (split '/' text).map Segment.ofText

theorem split_blank_cons {c : Char} (hc : isBlank c = true) (text : List Char) :
    split '/' (c :: text) = (split '/' text).modifyHead (c :: ·) := by
  have hd : deepen 0 c = 0 := by
    simp [deepen, not_isOpener_of_isBlank hc, not_isCloser_of_isBlank hc]
  rw [split, splitFrom_cons, if_neg (fun h => Text.ne_of_isBlank (by decide) c hc h.1), hd]
  rfl

theorem splitFrom_concat_blank {c : Char} (hc : isBlank c = true) {depth : Nat} {text : List Char}
    {pieces : List (List Char)} {last : List Char}
    (h : splitFrom '/' depth text = pieces ++ [last]) :
    splitFrom '/' depth (text ++ [c]) = pieces ++ [last ++ [c]] := by
  induction text generalizing depth pieces last with
  | nil =>
    obtain ⟨rfl, rfl⟩ : pieces = [] ∧ last = [] := by
      have := List.append_eq_singleton_iff.mp h.symm
      simpa using this
    rw [List.nil_append, splitFrom_cons, if_neg (fun h => Text.ne_of_isBlank (by decide) c hc h.1)]
    rfl
  | cons a text ih =>
    rw [List.cons_append]
    rw [splitFrom_cons] at h ⊢
    split at h
    case isTrue ha =>
      rw [if_pos ha]
      cases pieces with
      | nil => exact absurd (List.cons.inj h).2 (splitFrom_ne_nil '/' depth text)
      | cons p pieces =>
        have hp := List.cons.inj h
        rw [← hp.1, ih hp.2]
        rfl
    case isFalse ha =>
      rw [if_neg ha]
      cases hs : splitFrom '/' (deepen depth a) text with
      | nil => exact absurd hs (splitFrom_ne_nil '/' _ text)
      | cons p rest =>
        rw [hs, List.modifyHead_cons] at h
        cases pieces with
        | nil =>
          obtain ⟨hp, rfl⟩ := List.cons.inj h
          have hs' : splitFrom '/' (deepen depth a) text = [] ++ [p] := hs
          rw [ih hs', List.nil_append, List.modifyHead_cons, ← hp]
          rfl
        | cons p' pieces =>
          obtain ⟨rfl, rfl⟩ := List.cons.inj h
          have hs' : splitFrom '/' (deepen depth a) text = (p :: pieces) ++ [last] := hs
          rw [ih hs']
          rfl

theorem pieceSegments_blank_cons {c : Char} (hc : isBlank c = true) (text : List Char) :
    pieceSegments (c :: text) = pieceSegments text := by
  rw [pieceSegments, split_blank_cons hc, pieceSegments]
  cases split '/' text with
  | nil => rfl
  | cons p rest => simp [Segment.ofText_blank_cons hc]

theorem pieceSegments_concat_blank {c : Char} (hc : isBlank c = true) (text : List Char) :
    pieceSegments (text ++ [c]) = pieceSegments text := by
  obtain ⟨pieces, last, h⟩ : ∃ pieces last, split '/' text = pieces ++ [last] :=
    ⟨_, _, (List.dropLast_concat_getLast (splitFrom_ne_nil '/' 0 text)).symm⟩
  have h' : split '/' (text ++ [c]) = pieces ++ [last ++ [c]] := splitFrom_concat_blank hc h
  rw [pieceSegments, pieceSegments, h, h', List.map_append, List.map_append]
  simp [Segment.ofText_concat_blank hc]

theorem pieceSegments_trimStart (text : List Char) :
    pieceSegments (trimStart text) = pieceSegments text := by
  induction text with
  | nil => rfl
  | cons c text ih =>
    rw [Text.trimStart_cons]
    split
    case isTrue hc => rw [ih, pieceSegments_blank_cons hc]
    case isFalse => rfl

theorem pieceSegments_trimEnd (text : List Char) :
    pieceSegments (Text.trimEnd text) = pieceSegments text := by
  induction text using List.reverseRecOn with
  | nil => rfl
  | append_singleton text c ih =>
    rw [Text.trimEnd_concat]
    split
    case isTrue hc => rw [ih, pieceSegments_concat_blank hc]
    case isFalse => rfl

theorem pieceSegments_trim (text : List Char) : pieceSegments (trim text) = pieceSegments text := by
  rw [trim, pieceSegments_trimEnd, pieceSegments_trimStart]

/-- An empty piece at the head declares nothing and leaves the cursor at the root. -/
theorem declare_slash (text : List Char) :
    declare Path.root (pieceSegments ('/' :: text)) = declare Path.root (pieceSegments text) := by
  have hsplit : pieceSegments ('/' :: text) = Segment.ofText [] :: pieceSegments text := by
    rw [pieceSegments, split, splitFrom_cons, if_pos (by decide), List.map_cons]
    rfl
  have hentries : (Segment.ofText []).entries Path.root = [] := rfl
  have hadvance : (Segment.ofText []).advance Path.root = Path.root := by decide
  rw [hsplit, declare_cons, hentries, hadvance, List.nil_append]

/-- A spec declares what its pieces declare: trimming the text and taking a slash from its head make no
difference. -/
theorem parse_eq_declare (spec : String) :
    parse spec = declare Path.root (pieceSegments spec.toList) := by
  rw [← pieceSegments_trim, parse, segments, body]
  split
  case h_1 rest h => rw [h, declare_slash, pieceSegments]
  case h_2 => rfl

end FileFixture.Spec
