import FileFixture.Fixture.Query
import FileFixture.Proofs.Path.NormalForm

/-!
Absolute paths. The prefix loses the slashes at its end and the path those at its head, and one slash comes between
them, so that it does not matter how many there were. In normal form this is the prefix and the path joined: a slash
more or less at the seam is an empty component, and an empty component leads nowhere.
-/
namespace FileFixture

namespace Path

def slashes (n : Nat) : String := String.ofList (List.replicate n '/')

@[simp] theorem toList_slashes (n : Nat) : (slashes n).toList = List.replicate n '/' := String.toList_ofList

theorem slashes_add (m n : Nat) : slashes m ++ slashes n = slashes (m + n) := by
  rw [← String.toList_inj, String.toList_append, toList_slashes, toList_slashes, toList_slashes,
    List.replicate_append_replicate]

/-- The text without the slashes at its end. -/
structure IsStem (stem text : String) : Prop where
  eq_append : ∃ n, text = stem ++ slashes n
  ends : stem.toList.getLast? ≠ some '/'

/-- The text without the slashes at its head. -/
structure IsRest (rest text : String) : Prop where
  eq_append : ∃ n, text = slashes n ++ rest
  starts : rest.toList.head? ≠ some '/'

section Seam

variable {stem base rest path : String}

theorem IsStem.append_slashes (h : IsStem stem base) (n : Nat) : IsStem stem (base ++ slashes n) := by
  obtain ⟨m, rfl⟩ := h.eq_append
  exact ⟨⟨m + n, by rw [String.append_assoc, slashes_add]⟩, h.ends⟩

theorem IsRest.slashes_append (h : IsRest rest path) (n : Nat) : IsRest rest (slashes n ++ path) := by
  obtain ⟨m, rfl⟩ := h.eq_append
  exact ⟨⟨n + m, by rw [← String.append_assoc, slashes_add]⟩, h.starts⟩

theorem exists_slashes_append (text : List Char) :
    ∃ n rest, text = List.replicate n '/' ++ rest ∧ rest.head? ≠ some '/' := by
  induction text with
  | nil => exact ⟨0, [], rfl, by simp⟩
  | cons c text ih =>
    by_cases hc : c = '/'
    · obtain ⟨n, rest, rfl, hrest⟩ := ih
      exact ⟨n + 1, rest, by rw [hc, List.replicate_succ, List.cons_append], hrest⟩
    · exact ⟨0, c :: text, rfl, by simpa using hc⟩

theorem exists_isRest (path : String) : ∃ rest, IsRest rest path := by
  obtain ⟨n, rest, htext, hrest⟩ := exists_slashes_append path.toList
  refine ⟨String.ofList rest, ⟨n, ?_⟩, by rwa [String.toList_ofList]⟩
  rw [← String.toList_inj, String.toList_append, toList_slashes, String.toList_ofList, htext]

/-- The end of a text is the head of its reverse. -/
theorem exists_isStem (base : String) : ∃ stem, IsStem stem base := by
  obtain ⟨n, rest, htext, hrest⟩ := exists_slashes_append base.toList.reverse
  refine ⟨String.ofList rest.reverse, ⟨n, ?_⟩, by rwa [String.toList_ofList, List.getLast?_reverse]⟩
  rw [← String.toList_inj, String.toList_append, toList_slashes, String.toList_ofList, ← List.reverse_inj, htext,
    List.reverse_append, List.reverse_reverse, List.reverse_replicate]

theorem dropWhile_slashes (n : Nat) {rest : List Char} (h : rest.head? ≠ some '/') :
    (List.replicate n '/' ++ rest).dropWhile (· == '/') = rest := by
  rw [List.dropWhile_append_of_pos (by simp)]
  cases rest with
  | nil => rfl
  | cons c rest =>
    have hc : c ≠ '/' := fun he => h (congrArg some he)
    rw [List.dropWhile_cons, if_neg (by simpa using hc)]

theorem concat_eq (hstem : IsStem stem base) (hrest : IsRest rest path) : concat base path = stem ++ "/" ++ rest := by
  obtain ⟨m, rfl⟩ := hstem.eq_append
  obtain ⟨n, rfl⟩ := hrest.eq_append
  have hends : stem.toList.reverse.head? ≠ some '/' := by rw [List.head?_reverse]; exact hstem.ends
  rw [← String.toList_inj, concat, String.toList_ofList, String.toList_append, toList_slashes, List.reverse_append,
    List.reverse_replicate, dropWhile_slashes m hends, List.reverse_reverse, String.toList_append, toList_slashes,
    dropWhile_slashes n hrest.starts]
  simp

/-- Slashes at the head of a text are empty components. -/
theorem enter_slashes_append (n : Nat) (stack : List (List Char)) (text : List Char) :
    enter stack (List.replicate n '/' ++ text) = enter stack text := by
  induction n with
  | zero => rfl
  | succ n ih =>
    have hslash : List.replicate (n + 1) '/' ++ text = [] ++ '/' :: (List.replicate n '/' ++ text) := rfl
    rw [hslash, enter_append isSeparator_slash, enter_nil, ih]

/-- So are those at its end. -/
theorem components_append_slashes (base : String) (n : Nat) : components (base ++ slashes n) = components base := by
  rw [components, components, resolve_eq_enter, resolve_eq_enter, String.toList_append, toList_slashes]
  cases n with
  | zero => rw [List.replicate_zero, List.append_nil]
  | succ n =>
    have hnil : enter (enter [] base.toList) (List.replicate n '/' ++ []) = enter [] base.toList := by
      rw [enter_slashes_append, enter_nil]
    rw [List.append_nil] at hnil
    rw [List.replicate_succ, enter_append isSeparator_slash, hnil]

theorem join_slashes (base path : String) (m n : Nat) : join (base ++ slashes m) (slashes n ++ path) = join base path := by
  rw [join_eq, components_join, components_append_slashes, String.toList_append, toList_slashes, enter_slashes_append,
    ← components_join, ← join_eq]

end Seam

end Path

namespace Fixture

variable {f : Fixture}

theorem abs_eq (h : f.absError = none) (path : String) : f.abs path = .ok (Path.concat f.absPrefix path) := by
  rw [abs, h]

/-- Where no error is set for them, absolute paths are the prefix without the slashes at its end, one slash, and the path
without the slashes at its head; slashes that are added there make no difference. Normalized, they are what joining the
path to the prefix gives. -/
theorem abs_one_slash_and_normalize (h : f.absError = none) (path : String) :
    ∃ stem rest, Path.IsStem stem f.absPrefix ∧ Path.IsRest rest path ∧ f.abs path = .ok (stem ++ "/" ++ rest) ∧
      (∀ m n, (f.setAbsPrefix (f.absPrefix ++ Path.slashes m)).abs (Path.slashes n ++ path) = f.abs path) ∧
      Path.normalize (stem ++ "/" ++ rest) = Path.join f.absPrefix path := by
  obtain ⟨stem, hstem⟩ := Path.exists_isStem f.absPrefix
  obtain ⟨rest, hrest⟩ := Path.exists_isRest path
  have habs : f.abs path = .ok (stem ++ "/" ++ rest) := by rw [abs_eq h, Path.concat_eq hstem hrest]
  refine ⟨stem, rest, hstem, hrest, habs, fun m n => ?_, ?_⟩
  · have hmore : (f.setAbsPrefix (f.absPrefix ++ Path.slashes m)).absError = none := h
    rw [habs, abs_eq hmore]
    exact congrArg Answer.ok (Path.concat_eq (hstem.append_slashes m) (hrest.slashes_append n))
  · obtain ⟨m, hbase⟩ := hstem.eq_append
    obtain ⟨n, hpath⟩ := hrest.eq_append
    rw [hbase, hpath, Path.join_slashes, Path.join]

/-- A way up at the seam leads into the prefix, whose first slash is a backslash, and another past the root. -/
theorem abs_one_slash_and_normalize_past_root :
    let f := Fixture.empty.setAbsPrefix "\\work//"
    let path := "//..//../a/."
    f.absError = none ∧ f.abs path = .ok "\\work/..//../a/." ∧
    (f.setAbsPrefix ("\\work//" ++ Path.slashes 2)).abs (Path.slashes 1 ++ path) = f.abs path ∧
    Path.normalize "\\work/..//../a/." = Path.join "\\work//" path ∧ Path.join "\\work//" path = "/a" := by
  intro f path
  have herror : f.absError = none := rfl
  have hanswer : f.abs path = .ok "\\work/..//../a/." := by
    have hconcat : Path.concat "\\work//" path = "\\work/..//../a/." := by decide
    rw [abs_eq herror, ← hconcat]
    rfl
  obtain ⟨stem, rest, -, -, habs, hmore, hnormalize⟩ := abs_one_slash_and_normalize herror path
  have htext : stem ++ "/" ++ rest = "\\work/..//../a/." :=
    Except.ok.inj (congrArg Answer.result (habs.symm.trans hanswer))
  rw [htext] at hnormalize
  exact ⟨herror, hanswer, hmore 2 1, hnormalize, by decide⟩

end Fixture
end FileFixture
