import FileFixture.Proofs.Path.NormalForm
import FileFixture.Proofs.Spec.Grouped

/-!
What any text whatsoever declares. Every entry has a path in normal form and is named after the last component
of it, and the place that it stands in was declared before it. The cursor carries this: at every moment the
place where it stands and all places above are the root or have been declared.
-/
namespace FileFixture

open FileFixture.Path (IsName ofComponents components parent)

namespace Entry

/-- An entry at a place of its own in the tree, named after it. -/
structure Placed (e : Entry) : Prop where
  normal : Path.normalize e.path = e.path
  below_root : e.path ≠ Path.root
  trimmed : Text.trim e.name.toList = e.name.toList
  named : e.name ∉ ["", ".", ".."]
  one_component : '/' ∉ e.name.toList ∧ '\\' ∉ e.name.toList
  name_eq : e.name = Path.baseName e.path

end Entry

namespace Spec

/-- A name is always trimmed, also when the whole text has become the name. -/
theorem trim_name (text : List Char) :
    Text.trim (Segment.ofText text).name = (Segment.ofText text).name := by
  rw [Segment.ofText]
  cases h : Segment.grouped? text with
  | none => exact Text.trim_trim text
  | some s =>
    rw [Option.getD_some]
    exact (Segment.grouped_of_eq_some h).trim_name

namespace Segment

variable {s : Segment}

theorem plain_of_not_spans (h : s.spans = false) : ∀ c ∈ s.name, Path.isSeparator c = false := by
  intro c hc
  have hs := List.any_eq_false.mp h c hc
  simpa [Path.isSeparator] using hs

theorem isName_of_declares (hm : s.isMove = false) (hs : s.spans = false) : IsName s.name := by
  simp only [isMove, Bool.or_eq_false_iff, beq_eq_false_iff_ne] at hm
  exact ⟨hm.1.1, hm.1.2, hm.2, plain_of_not_spans hs⟩

theorem isName_nameText (h : IsName s.name) : IsName s.nameText.toList := by
  rwa [nameText, String.toList_ofList]

theorem components_target (hs : s.spans = false) (cursor : String) :
    components (s.target cursor) = (Path.step (components cursor).reverse s.name).reverse := by
  rw [target, Path.components_join, nameText, String.toList_ofList,
    Path.enter_plain (plain_of_not_spans hs)]

end Segment

/-- The entry that the segment of some text declares at a place. -/
inductive DeclaredAt (dir : String) : Entry → Prop
  | intro (text : List Char) (isDir : Bool) (tags : Tags) : IsName (Segment.ofText text).name →
      DeclaredAt dir (declared (Segment.ofText text).nameText ((Segment.ofText text).target dir) isDir tags)

namespace DeclaredAt

variable {dir : String} {e : Entry}

theorem placed (h : DeclaredAt dir e) : e.Placed := by
  obtain ⟨text, isDir, tags, hn⟩ := h
  have hn' := Segment.isName_nameText hn
  constructor
  · exact Path.normalize_join dir _
  · intro hroot
    have hc := congrArg components hroot
    rw [declared, Segment.target, Path.components_join_name hn', Path.components_root] at hc
    simp at hc
  · change Text.trim (String.ofList _).toList = (String.ofList _).toList
    rw [String.toList_ofList, trim_name]
  · intro hmem
    have hl : (Segment.ofText text).nameText.toList ∈ [[], ['.'], ['.', '.']] :=
      List.mem_map_of_mem hmem
    simp only [List.mem_cons, List.not_mem_nil, or_false] at hl
    rcases hl with hl | hl | hl
    · exact hn'.ne_nil hl
    · exact hn'.ne_dot hl
    · exact hn'.ne_dots hl
  · exact ⟨hn'.slash_notMem, fun hm => absurd (hn'.plain '\\' hm) (by decide)⟩
  · exact (Path.baseName_join hn' dir).symm

theorem parent_eq (h : DeclaredAt dir e) : parent e.path = Path.normalize dir := by
  obtain ⟨text, isDir, tags, hn⟩ := h
  exact Path.parent_join (Segment.isName_nameText hn) dir

theorem defaults (h : DeclaredAt dir e) : e.size = 0 ∧ e.mode = 0 ∧ e.modTime = .epoch := by
  obtain ⟨text, isDir, tags, hn⟩ := h
  exact ⟨rfl, rfl, rfl⟩

end DeclaredAt

theorem mem_ownEntries {text : List Char} {cursor : String} {e : Entry}
    (hs : (Segment.ofText text).spans = false) (h : e ∈ (Segment.ofText text).ownEntries cursor) :
    DeclaredAt cursor e := by
  obtain ⟨hm, rfl⟩ := Segment.mem_ownEntries_iff.mp h
  exact .intro text _ _ (Segment.isName_of_declares hm hs)

theorem mem_childEntries {s : Segment} {dir : String} {e : Entry} (h : e ∈ s.childEntries dir) :
    DeclaredAt dir e := by
  obtain ⟨group, -, item, -, hitem⟩ := Segment.mem_childEntries_iff.mp h
  obtain ⟨⟨hm, hs⟩, rfl⟩ := Segment.child?_eq_some_iff.mp hitem
  exact .intro item _ _ (Segment.isName_of_declares hm hs)

theorem mem_declare {e : Entry} {cursor : String} {texts : List (List Char)}
    (h : e ∈ declare cursor (texts.map Segment.ofText)) : ∃ dir, DeclaredAt dir e := by
  induction texts generalizing cursor with
  | nil => cases h
  | cons text texts ih =>
    rw [List.map_cons, declare_cons] at h
    rcases List.mem_append.mp h with h | h
    · obtain ⟨hs, h | h⟩ := Segment.mem_entries_iff.mp h
      · exact ⟨cursor, mem_ownEntries hs h⟩
      · exact ⟨_, mem_childEntries h⟩
    · exact ih h

theorem mem_parse {spec : String} {e : Entry} (h : e ∈ parse spec) : ∃ dir, DeclaredAt dir e := by
  rw [parse_eq_declare] at h
  exact mem_declare h

theorem placed_of_mem_parse {spec : String} {e : Entry} (h : e ∈ parse spec) : e.Placed :=
  (mem_parse h).elim fun _ hd => hd.placed

end Spec
end FileFixture
