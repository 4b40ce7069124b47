import FileFixture.Proofs.Path.NormalForm

/-!
What lies below a directory. The paths below it begin with one and the same text, so they stand together in
the order of paths, and what lies below a place below lies below the directory as well. Between paths in
normal form, to lie below is to have further components.
-/
namespace FileFixture.Path

/-- The text that the paths of the children of a directory begin with. -/
def childStart (dir : String) : List Char := (if dir = root then [] else dir.toList) ++ ['/']

theorem childName_eq (path dir : String) :
    childName path dir = (dropStart? (childStart dir) path.toList).bind fun text =>
      if text = [] ∨ '/' ∈ text then none else some (String.ofList text) := by
  unfold childName childStart
  dsimp only
  cases dropStart? ((if dir = root then [] else dir.toList) ++ ['/']) path.toList with
  | none => rfl
  | some text => rfl

theorem childName_eq_some_iff {path dir name : String} :
    childName path dir = some name ↔
      path.toList = childStart dir ++ name.toList ∧ name.toList ≠ [] ∧ '/' ∉ name.toList := by
  rw [childName_eq, Option.bind_eq_some_iff]
  constructor
  · rintro ⟨text, ht, hn⟩
    split at hn
    case isTrue => cases hn
    case isFalse h =>
      rw [← Option.some.inj hn, String.toList_ofList]
      exact ⟨dropStart?_eq_some_iff.mp ht, not_or.mp h⟩
  · rintro ⟨hp, h⟩
    refine ⟨name.toList, dropStart?_eq_some_iff.mpr hp, ?_⟩
    rw [if_neg (not_or.mpr h), String.ofList_toList]

theorem baseName_of_childName {path dir name : String} (h : childName path dir = some name) :
    baseName path = name := by
  obtain ⟨hp, -, hs⟩ := childName_eq_some_iff.mp h
  have hpath : path = String.ofList ((if dir = root then [] else dir.toList) ++ '/' :: name.toList) := by
    rw [← String.ofList_toList (s := path), hp, childStart, List.append_assoc, List.singleton_append]
  rw [hpath, baseName_append hs, String.ofList_toList]

/-- The root is nobody's child. -/
theorem ne_root_of_childName {path dir name : String} (h : childName path dir = some name) :
    path ≠ root := by
  obtain ⟨hp, hn, -⟩ := childName_eq_some_iff.mp h
  rintro rfl
  have hl := congrArg List.length hp
  rw [childStart, List.length_append, List.length_append, List.length_singleton] at hl
  have hpos := List.length_pos_iff.mpr hn
  have hroot : root.toList.length = 1 := rfl
  omega

theorem append_lt_append_iff {start a b : List Char} : start ++ a < start ++ b ↔ a < b := by
  induction start with
  | nil => rfl
  | cons c start ih => simp [ih]

/-- Siblings are in the order of their names. -/
theorem childName_lt {p q dir m n : String} (hp : childName p dir = some m) (hq : childName q dir = some n)
    (h : p < q) : m < n := by
  have h' : p.toList < q.toList := h
  rw [(childName_eq_some_iff.mp hp).1, (childName_eq_some_iff.mp hq).1, append_lt_append_iff] at h'
  exact h'

theorem toList_prefix_childStart (path : String) : path.toList <+: childStart path := by
  unfold childStart
  split
  case isTrue h =>
    rw [h]
    exact List.prefix_refl _
  case isFalse => exact List.prefix_append _ _

theorem isWithin_iff {path dir : String} :
    isWithin path dir = true ↔ path = dir ∨ childStart dir <+: path.toList := by
  have hself : path = dir ↔ path.toList = dir.toList := String.toList_inj.symm
  unfold isWithin childStart
  split
  case isTrue hd =>
    have hroot : dir.toList = ['/'] := by rw [hd]; rfl
    rw [hself, hroot]
    cases path.toList with
    | nil => simp
    | cons c text =>
      rw [List.nil_append, List.cons_prefix_cons, @eq_comm _ '/' c]
      simp +contextual
  case isFalse hd =>
    rw [hself]
    cases ht : dropStart? dir.toList path.toList with
    | none =>
      have hn : ∀ text, path.toList ≠ dir.toList ++ text := by
        intro text hp
        rw [dropStart?_eq_some_iff.mpr hp] at ht
        cases ht
      constructor
      · intro h
        cases h
      · rintro (h | ⟨text, h⟩)
        · exact absurd (h.trans (List.append_nil _).symm) (hn [])
        · exact absurd (h.symm.trans (List.append_assoc _ _ _)) (hn _)
    | some rest =>
      rw [dropStart?_eq_some_iff.mp ht]
      cases rest with
      | nil => simp
      | cons c rest =>
        rw [List.prefix_append_right_inj, List.cons_prefix_cons, @eq_comm _ '/' c]
        simp

@[simp] theorem isWithin_self (path : String) : isWithin path path = true := isWithin_iff.mpr (Or.inl rfl)

theorem isWithin_trans {p q r : String} (hpq : isWithin p q = true) (hqr : isWithin q r = true) :
    isWithin p r = true := by
  rw [isWithin_iff] at hpq hqr ⊢
  rcases hpq with rfl | hpq
  · exact hqr
  · rcases hqr with rfl | hqr
    · exact Or.inr hpq
    · exact Or.inr ((hqr.trans (toList_prefix_childStart q)).trans hpq)

theorem isWithin_of_childName {path dir name : String} (h : childName path dir = some name) :
    isWithin path dir = true :=
  isWithin_iff.mpr (Or.inr ⟨name.toList, (childName_eq_some_iff.mp h).1.symm⟩)

theorem prefix_of_isWithin {path dir : String} (h : isWithin path dir = true) :
    dir.toList <+: path.toList := by
  rcases isWithin_iff.mp h with rfl | h
  · exact List.prefix_refl _
  · exact (toList_prefix_childStart dir).trans h

theorem isWithin_antisymm {p q : String} (hpq : isWithin p q = true) (hqp : isWithin q p = true) : p = q :=
  String.toList_inj.mp ((prefix_of_isWithin hqp).eq_of_length_le (prefix_of_isWithin hpq).length_le)

/-- The path of a child tells its name, and the name its path. -/
theorem childName_inj {p q dir name : String} (hp : childName p dir = some name)
    (hq : childName q dir = some name) : p = q :=
  String.toList_inj.mp ((childName_eq_some_iff.mp hp).1.trans (childName_eq_some_iff.mp hq).1.symm)

theorem childName_self (path : String) : childName path path = none := by
  rw [Option.eq_none_iff_forall_ne_some]
  intro name h
  obtain ⟨hp, hn, -⟩ := childName_eq_some_iff.mp h
  have hl := (toList_prefix_childStart path).length_le
  have hpos := List.length_pos_iff.mpr hn
  rw [hp, List.length_append] at hl
  omega

/-- The path of a name in a directory. -/
def childPath (dir name : String) : String := (if dir = root then "" else dir) ++ "/" ++ name

theorem toList_childPath (dir name : String) : (childPath dir name).toList = childStart dir ++ name.toList := by
  unfold childPath childStart
  split <;> simp

theorem childName_eq_some_iff_childPath {path dir name : String} :
    childName path dir = some name ↔ (name ≠ "" ∧ '/' ∉ name.toList) ∧ path = childPath dir name := by
  rw [childName_eq_some_iff, ← toList_childPath, String.toList_inj, and_comm, ne_eq, String.toList_eq_nil_iff]

/-- A path further down is nobody's child here. -/
theorem childName_childPath_of_mem {dir text : String} (h : '/' ∈ text.toList) :
    childName (childPath dir text) dir = none := by
  rw [Option.eq_none_iff_forall_ne_some]
  intro name hname
  obtain ⟨ht, -, hs⟩ := childName_eq_some_iff.mp hname
  rw [toList_childPath, List.append_cancel_left_eq] at ht
  exact hs (ht ▸ h)

/-- Nor is a path that only begins with the same characters. -/
theorem childName_append_of_ne {dir text : String} (hdir : dir ≠ root) (h : text.toList.head? ≠ some '/') :
    childName (dir ++ text) dir = none := by
  rw [Option.eq_none_iff_forall_ne_some]
  intro name hname
  have ht := (childName_eq_some_iff.mp hname).1
  rw [childStart, if_neg hdir, String.toList_append, List.append_assoc, List.append_cancel_left_eq] at ht
  rw [ht] at h
  exact h rfl

theorem not_lt_of_prefix {a b : List Char} (h : a <+: b) : ¬b < a := by
  obtain ⟨text, rfl⟩ := h
  intro hlt
  have ha : a ++ text < a ++ [] := by rwa [List.append_nil]
  exact List.not_lt_nil text (append_lt_append_iff.mp ha)

theorem not_lt_of_isWithin {path dir : String} (h : isWithin path dir = true) : ¬path < dir :=
  not_lt_of_prefix (prefix_of_isWithin h)

/-- Texts that begin alike stand together: so does everything between two of them. -/
theorem prefix_of_between {a b c : List Char} (hc : a <+: c) (hab : ¬b < a) (hbc : b < c) : a <+: b := by
  induction a generalizing b c with
  | nil => exact List.nil_prefix
  | cons x a ih =>
    obtain ⟨c, rfl⟩ := hc
    cases b with
    | nil => exact absurd (List.nil_lt_cons x a) hab
    | cons y b =>
      rw [List.cons_lt_cons_iff, not_or, not_and] at hab
      rw [List.cons_append, List.cons_lt_cons_iff] at hbc
      rcases hbc with hlt | ⟨rfl, hlt⟩
      · exact absurd hlt hab.1
      · exact (List.cons_prefix_cons).mpr ⟨rfl, ih (List.prefix_append a c) (hab.2 rfl) hlt⟩

theorem splitOnP_flatMap {parts : List (List Char)} (h : ∀ p ∈ parts, IsName p) :
    (parts.flatMap ('/' :: ·)).splitOnP isSeparator = [] :: parts := by
  induction parts using List.reverseRecOn with
  | nil => rfl
  | append_singleton parts part ih =>
    have hparts := ih fun p hp => h p (List.mem_append_left _ hp)
    have hpart := (h part (by simp)).plain
    rw [List.flatMap_append, List.flatMap_singleton, List.splitOnP_append_cons _ _ isSeparator_slash,
      hparts, List.splitOnP_eq_singleton hpart, List.cons_append]

section Components

variable {parts dir : List (List Char)} (hparts : ∀ p ∈ parts, IsName p) (hdir : ∀ p ∈ dir, IsName p)

include hdir in
theorem childStart_ofComponents : childStart (ofComponents dir) = dir.flatMap ('/' :: ·) ++ ['/'] := by
  by_cases hn : dir = []
  · rw [hn]
    rfl
  · have hroot : ofComponents dir ≠ root := by
      intro h
      rw [← components_ofComponents hdir, h, components_root] at hn
      exact hn rfl
    rw [childStart, if_neg hroot, ofComponents, String.toList_ofList, render_of_ne_nil hn]

include hdir in
theorem toList_ofComponents_append (part : List Char) (below : List (List Char)) :
    (ofComponents (dir ++ part :: below)).toList =
      childStart (ofComponents dir) ++ (part ++ below.flatMap ('/' :: ·)) := by
  rw [childStart_ofComponents hdir, ofComponents, String.toList_ofList, render_of_ne_nil (by simp)]
  simp

include hparts hdir in
theorem isWithin_ofComponents : isWithin (ofComponents parts) (ofComponents dir) = true ↔ dir <+: parts := by
  rw [isWithin_iff]
  constructor
  · rintro (h | ⟨text, h⟩)
    · have hc := congrArg components h
      rw [components_ofComponents hparts, components_ofComponents hdir] at hc
      exact hc ▸ List.prefix_refl _
    · rw [childStart_ofComponents hdir, List.append_assoc, List.singleton_append] at h
      -- Split at the separators, the two sides are the components themselves.
      have hs := congrArg (List.splitOnP isSeparator) h
      rw [List.splitOnP_append_cons _ _ isSeparator_slash, splitOnP_flatMap hdir, ofComponents,
        String.toList_ofList] at hs
      by_cases hn : parts = []
      · have hroot : (render parts).splitOnP isSeparator = [[], []] := by rw [hn]; rfl
        have hl := congrArg List.length (hs.trans hroot)
        have hpos := List.length_pos_iff.mpr (List.splitOnP_ne_nil isSeparator text)
        have hnil : dir = [] := List.length_eq_zero_iff.mp (by simp at hl; omega)
        exact hnil ▸ List.nil_prefix
      · rw [render_of_ne_nil hn, splitOnP_flatMap hparts, List.cons_append, List.cons_inj_right] at hs
        exact ⟨_, hs⟩
  · rintro ⟨below, rfl⟩
    cases below with
    | nil => exact Or.inl (by rw [List.append_nil])
    | cons part below =>
      rw [toList_ofComponents_append hdir]
      exact Or.inr (List.prefix_append _ _)

include hparts hdir in
theorem childName_ofComponents {name : String} :
    childName (ofComponents parts) (ofComponents dir) = some name ↔ parts = dir ++ [name.toList] := by
  constructor
  · intro h
    obtain ⟨below, rfl⟩ := (isWithin_ofComponents hparts hdir).mp (isWithin_of_childName h)
    cases below with
    | nil =>
      rw [List.append_nil, childName_self] at h
      cases h
    | cons part below =>
      obtain ⟨ht, -, hs⟩ := childName_eq_some_iff.mp h
      rw [toList_ofComponents_append hdir, List.append_cancel_left_eq] at ht
      cases below with
      | nil => rw [← ht, List.flatMap_nil, List.append_nil]
      | cons => exact absurd (by simp [← ht]) hs
  · rintro rfl
    have hname := hparts name.toList (by simp)
    rw [childName_eq_some_iff, toList_ofComponents_append hdir, List.flatMap_nil, List.append_nil]
    exact ⟨rfl, hname.ne_nil, hname.slash_notMem⟩

end Components

section Normal

variable {path dir : String} (hpath : normalize path = path) (hdir : normalize dir = dir)

include hpath hdir

/-- A path in normal form lies within another if it has all of its components and maybe more. -/
theorem isWithin_iff_components : isWithin path dir = true ↔ components dir <+: components path := by
  rw [← isWithin_ofComponents isName_of_mem_components isName_of_mem_components, ← normalize_eq, ← normalize_eq,
    hpath, hdir]

theorem childName_iff_components {name : String} :
    childName path dir = some name ↔ components path = components dir ++ [name.toList] := by
  rw [← childName_ofComponents isName_of_mem_components isName_of_mem_components, ← normalize_eq, ← normalize_eq,
    hpath, hdir]

end Normal

end FileFixture.Path
