import FileFixture.Proofs.Path.NormalForm
import Mathlib.Data.List.Basic

/-!
The normal form of paths as a set of texts. These texts are told by their shape alone: a lone slash, or names with
one slash before each. Normalizing leads into this set and leaves it as it is, and a text joined to a path acts on it:
to join two texts one after the other is to join both at once.
-/
namespace FileFixture.Path

/-- A lone slash, or one slash before each of some names. -/
def IsCanonical (path : String) : Prop :=
  path = "/" ∨ ∃ names : List String, names ≠ [] ∧
    (∀ name ∈ names, name ∉ ["", ".", ".."] ∧ '/' ∉ name.toList ∧ '\\' ∉ name.toList) ∧
    path = "/" ++ "/".intercalate names

theorem isName_iff {name : String} :
    IsName name.toList ↔ name ∉ ["", ".", ".."] ∧ '/' ∉ name.toList ∧ '\\' ∉ name.toList := by
  have hinj : Function.Injective String.toList := fun _ _ h => String.toList_inj.mp h
  have hlist : name.toList ∈ ["", ".", ".."].map String.toList ↔ name ∈ ["", ".", ".."] :=
    List.mem_map_of_injective hinj
  have hmap : ["", ".", ".."].map String.toList = [[], ['.'], ['.', '.']] := rfl
  rw [← hlist, hmap]
  constructor
  · intro h
    refine ⟨by simp [h.ne_nil, h.ne_dot, h.ne_dots], h.slash_notMem, fun hm => ?_⟩
    exact absurd (h.plain '\\' hm) (by decide)
  · rintro ⟨hne, hslash, hback⟩
    simp only [List.mem_cons, List.not_mem_nil, or_false, not_or] at hne
    refine ⟨hne.1, hne.2.1, hne.2.2, fun c hc => ?_⟩
    rw [isSeparator, Bool.or_eq_false_iff, beq_eq_false_iff_ne, beq_eq_false_iff_ne]
    exact ⟨fun h => hslash (h ▸ hc), fun h => hback (h ▸ hc)⟩

theorem ofComponents_map_toList (names : List String) :
    ofComponents (names.map String.toList) = "/" ++ "/".intercalate names := by
  rw [← String.toList_inj, ofComponents, String.toList_ofList, render_eq_intercalate, String.toList_append,
    String.toList_intercalate]
  rfl

theorem isCanonical_normalize (path : String) : IsCanonical (normalize path) := by
  by_cases hnil : components path = []
  · left
    rw [normalize_eq, hnil]
    rfl
  · right
    have hmap : components path = ((components path).map String.ofList).map String.toList := by simp
    refine ⟨(components path).map String.ofList, by simpa using hnil, fun name hname => ?_, ?_⟩
    · obtain ⟨part, hpart, rfl⟩ := List.mem_map.mp hname
      rw [← isName_iff, String.toList_ofList]
      exact isName_of_mem_components part hpart
    · rw [← ofComponents_map_toList, ← hmap, normalize_eq]

/-- Nothing is left to normalize in a text of this shape, and there is no other such text. -/
theorem isCanonical_iff {path : String} : IsCanonical path ↔ normalize path = path := by
  constructor
  · rintro (rfl | ⟨names, -, hnames, rfl⟩)
    · exact normalize_root
    · have hparts : ∀ part ∈ names.map String.toList, IsName part := by
        intro part hpart
        obtain ⟨name, hname, rfl⟩ := List.mem_map.mp hpart
        exact isName_iff.mpr (hnames name hname)
      rw [← ofComponents_map_toList, normalize_eq, components_ofComponents hparts]
  · intro h
    rw [← h]
    exact isCanonical_normalize path

theorem join_normalize (base name : String) : join (normalize base) name = join base name := by
  rw [join_eq, components_join, components_normalize, ← components_join, ← join_eq]

/-- The components of the second text act on what those of the first have left. -/
theorem join_join (base first second : String) :
    join (join base first) second = join base (first ++ "/" ++ second) := by
  have htext : (first ++ "/" ++ second).toList = first.toList ++ '/' :: second.toList := by simp
  rw [join_eq, components_join, components_join, List.reverse_reverse, ← enter_append isSeparator_slash, ← htext,
    ← components_join, ← join_eq]

theorem join_append (base first second : String) :
    join base (first ++ "/" ++ second) = normalize (base ++ "/" ++ first ++ "/" ++ second) := by
  simp only [join, String.append_assoc]

/-- Normalizing leads to the texts of canonical shape and leaves just these as they are, and joining does not ask
whether the base was normalized or the texts were joined in one step or in two. -/
theorem normalize_canonical_and_join_acts (path a b c : String) :
    (IsCanonical (normalize path) ∧ (IsCanonical path ↔ normalize path = path) ∧
      normalize (normalize path) = normalize path ∧ (IsCanonical path ↔ ∃ source, normalize source = path)) ∧
    join (normalize a) b = join a b ∧ join (join a b) c = join a (b ++ "/" ++ c) ∧
    join a (b ++ "/" ++ c) = normalize (a ++ "/" ++ b ++ "/" ++ c) := by
  refine ⟨⟨isCanonical_normalize path, isCanonical_iff, normalize_normalize path, ?_⟩, join_normalize a b,
    join_join a b c, join_append a b c⟩
  constructor
  · exact fun h => ⟨path, isCanonical_iff.mp h⟩
  · rintro ⟨source, rfl⟩
    exact isCanonical_normalize source

/-- The way up stops at the root of the whole, wherever the text is parted. -/
example : join (join "a\\.." "../b/.") "..//c\\" = "/c" ∧ join "a\\.." ("../b/." ++ "/" ++ "..//c\\") = "/c" := by decide

end FileFixture.Path
