import FileFixture.Proofs.Spec.Pieces
import FileFixture.Proofs.Spec.Splitting

/-!
Recovery from malformed segments. A segment whose name would span several components declares nothing and leaves the
cursor where it stands. The pieces around it are read as if it were not there, also when they are written down again
without it.
-/
namespace FileFixture.Spec

theorem declare_filter_spans (cursor : String) (segments : List Segment) :
    declare cursor (segments.filter (!·.spans)) = declare cursor segments := by
  induction segments generalizing cursor with
  | nil => rfl
  | cons s segments ih =>
    rw [List.filter_cons, declare_cons]
    cases hs : s.spans with
    | true => simp [s.entries_of_spans hs, s.advance_of_spans hs, ih]
    | false => simp [ih]

theorem cursorAfter_filter_spans (cursor : String) (segments : List Segment) :
    cursorAfter cursor (segments.filter (!·.spans)) = cursorAfter cursor segments := by
  induction segments generalizing cursor with
  | nil => rfl
  | cons s segments ih =>
    rw [List.filter_cons]
    cases hs : s.spans with
    | true => simp [s.advance_of_spans hs, ih]
    | false => simp [ih]

/-- The pieces of a spec, as they are written. -/
def piecesOf (spec : String) : List (List Char) := split '/' (body spec.toList)

/-- A piece is malformed if its name is no single component. -/
def isMalformed (piece : List Char) : Bool :=
  let name := (Segment.ofText piece).name
  '/' ∈ name ∨ '\\' ∈ name

theorem isMalformed_eq_spans (piece : List Char) : isMalformed piece = (Segment.ofText piece).spans := by
  rw [Bool.eq_iff_iff]
  simp [isMalformed, Segment.spans, and_or_left, exists_or]

/-- The pieces that are left when the malformed ones are taken out. -/
def wellFormed (pieces : List (List Char)) : List (List Char) := pieces.filter (!isMalformed ·)

theorem map_wellFormed (pieces : List (List Char)) :
    (wellFormed pieces).map Segment.ofText = (pieces.map Segment.ofText).filter (!·.spans) := by
  simp only [wellFormed, List.filter_map, isMalformed_eq_spans]
  rfl

theorem parse_intercalate {pieces : List (List Char)} (h : Parted '/' pieces) :
    parse (String.ofList (['/'].intercalate pieces)) = declare Path.root (pieces.map Segment.ofText) := by
  rw [parse_eq_declare, String.toList_ofList, pieceSegments, h.split_intercalate (by decide)]

/-- A spec declares what it declares without its malformed pieces. The others are found again when they are written
down without them, and at every piece the entries so far and the place of the cursor are the same; so nothing that a
malformed piece holds is declared, and nothing else is lost, added or moved. -/
theorem parse_without_malformed (spec : String) :
    parse (String.ofList (['/'].intercalate (wellFormed (piecesOf spec)))) = parse spec ∧
    (wellFormed (piecesOf spec) ≠ [] →
      split '/' (['/'].intercalate (wellFormed (piecesOf spec))) = wellFormed (piecesOf spec)) ∧
    (∀ before, before <+: piecesOf spec →
      declare Path.root ((wellFormed before).map Segment.ofText) = declare Path.root (before.map Segment.ofText) ∧
      cursorAfter Path.root ((wellFormed before).map Segment.ofText) =
        cursorAfter Path.root (before.map Segment.ofText)) ∧
    ∀ piece ∈ piecesOf spec, isMalformed piece = true → ∀ cursor,
      (Segment.ofText piece).entries cursor = [] ∧ (Segment.ofText piece).advance cursor = cursor := by
  have hparted : Parted '/' (piecesOf spec) := parted_split '/' _
  refine ⟨?_, fun hne => (hparted.filter _ hne).split_intercalate (by decide), fun before _ => ?_,
    fun piece _ hpiece cursor => ?_⟩
  · have hparse : parse spec = declare Path.root ((wellFormed (piecesOf spec)).map Segment.ofText) := by
      rw [map_wellFormed, declare_filter_spans, parse, segments, piecesOf]
    rw [hparse]
    by_cases hne : wellFormed (piecesOf spec) = []
    · -- no piece is left, and the empty text has one that declares nothing
      rw [hne]
      decide
    · exact parse_intercalate (hparted.filter _ hne)
  · rw [map_wellFormed]
    exact ⟨declare_filter_spans _ _, cursorAfter_filter_spans _ _⟩
  · rw [isMalformed_eq_spans] at hpiece
    exact ⟨Segment.entries_of_spans hpiece cursor, Segment.advance_of_spans hpiece cursor⟩

/-- Of five pieces, three are malformed: a backslash in a name, text behind a group, and a group that is not closed. -/
theorem parse_without_malformed_three :
    let spec := " /a\\[x]/b/(/c)d/..[e]/f[g/h "
    wellFormed (piecesOf spec) = ["b".toList, "..[e]".toList] ∧
    split '/' "b/..[e]".toList = wellFormed (piecesOf spec) ∧ parse "b/..[e]" = parse spec ∧
    (Segment.ofText "(/c)d".toList).entries "/b" = [] ∧
    cursorAfter Path.root ([("a\\[x]".toList), "b".toList].map Segment.ofText) = "/b" ∧
    (parse spec).map (·.path) = ["/b", "/e"] := by
  intro spec
  have hkept : wellFormed (piecesOf spec) = ["b".toList, "..[e]".toList] := by decide
  have hmember : "(/c)d".toList ∈ piecesOf spec := by decide
  have hbefore : [("a\\[x]".toList), "b".toList] <+: piecesOf spec := by decide
  obtain ⟨hparse, hsplit, hsame, hnothing⟩ := parse_without_malformed spec
  rw [hkept] at hparse hsplit
  refine ⟨hkept, (hsplit (by decide)).trans hkept.symm, hparse, (hnothing _ hmember (by decide) _).1, ?_, ?_⟩
  · rw [← (hsame _ hbefore).2]
    decide
  · rw [← hparse]
    decide

end FileFixture.Spec
