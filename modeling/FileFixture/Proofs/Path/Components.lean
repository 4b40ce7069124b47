import FileFixture.Proofs.Path.Within

/-!
Paths as lists of components. In normal form a path is nothing but its components: to lie below is to have further
ones, a child has one more, the base name is the last, and joining a name adds it. What the path functions find
by comparing characters is what they would find by comparing components.
-/
namespace FileFixture.Path

theorem normal_eq_ofComponents {path : String} (h : normalize path = path) :
    path = ofComponents (components path) := h.symm.trans (normalize_eq path)

theorem isWithin_root {path : String} (h : normalize path = path) : isWithin path root = true := by
  rw [isWithin_iff_components h normalize_root, components_root]
  exact List.nil_prefix

theorem toList_baseName {path : String} (h : normalize path = path) :
    (baseName path).toList = (components path).getLast?.getD [] := by
  have hnames : ∀ part ∈ components path, IsName part := isName_of_mem_components
  rw [← toList_baseName_ofComponents hnames, ← normal_eq_ofComponents h]

theorem childName_join {dir name : String} (hdir : normalize dir = dir) (hname : IsName name.toList) :
    childName (join dir name) dir = some name := by
  rw [childName_iff_components (normalize_join dir name) hdir, components_join_name hname]

theorem eq_join_of_childName {path dir name : String} (hpath : normalize path = path) (hdir : normalize dir = dir)
    (h : childName path dir = some name) : path = join dir name := by
  have hc := (childName_iff_components hpath hdir).mp h
  have hname : IsName name.toList := isName_of_mem_components _ (by rw [hc]; simp)
  exact components_inj hpath (normalize_join dir name) (hc.trans (components_join_name hname dir).symm)

/-- The path functions are functions of component lists: `p`, `r` and `d` are in normal form, `n` is a component, and
`m` is any text. -/
theorem components_reflect {p r d : String} (hp : normalize p = p) (hr : normalize r = r) (hd : normalize d = d)
    {n : String} (hn : IsName n.toList) (m : String) :
    (p = ofComponents (components p) ∧ (∀ part ∈ components p, IsName part) ∧ components root = []) ∧
    (components p = components r → p = r) ∧
    (isWithin p r = true ↔ components r <+: components p) ∧
    (isWithin p p = true ∧ (isWithin p r = true → isWithin r p = true → p = r) ∧
      (isWithin p r = true → isWithin r d = true → isWithin p d = true) ∧ isWithin p root = true) ∧
    (childName p d = some m ↔ components p = components d ++ [m.toList]) ∧
    ((baseName p).toList = (components p).getLast?.getD [] ∧ baseName root = "") ∧
    (normalize (join d n) = join d n ∧ components (join d n) = components d ++ [n.toList] ∧
      childName (join d n) d = some n ∧ baseName (join d n) = n) ∧
    (childName p d = some m → p = join d m) := by
  refine ⟨?_, components_inj hp hr, isWithin_iff_components hp hr, ?_, childName_iff_components hp hd, ?_, ?_,
    eq_join_of_childName hp hd⟩
  · exact ⟨normal_eq_ofComponents hp, isName_of_mem_components, components_root⟩
  · exact ⟨isWithin_self p, isWithin_antisymm, isWithin_trans, isWithin_root hp⟩
  · exact ⟨toList_baseName hp, rfl⟩
  · exact ⟨normalize_join d n, components_join_name hn d, childName_join hd hn, baseName_join hn d⟩

/-- The text of `/home/jo` begins the text of `/home/john`, which lies beside it and not below. -/
theorem components_reflect_beside :
    (normalize "/home/john" = "/home/john" ∧ normalize "/home/jo" = "/home/jo" ∧ normalize "/home" = "/home" ∧
      IsName "jo".toList) ∧
    isWithin "/home/john" "/home/jo" = false ∧ childName "/home/john" "/home" = some "john" ∧
    (baseName "/home/john").toList = "john".toList ∧ childName (join "/home" "jo") "/home" = some "jo" ∧
    "/home/john" = join "/home" "john" := by
  have hp : normalize "/home/john" = "/home/john" := by decide
  have hr : normalize "/home/jo" = "/home/jo" := by decide
  have hd : normalize "/home" = "/home" := by decide
  have hn : IsName "jo".toList := ⟨by decide, by decide, by decide, by simp [isSeparator]⟩
  have hcomponents : components "/home/john" = components "/home" ++ ["john".toList] := by decide
  have hbeside : ¬components "/home/jo" <+: components "/home/john" := by decide
  obtain ⟨-, -, hwithin, -, hchild, ⟨hbase, -⟩, ⟨-, -, hjoined, -⟩, heq⟩ := components_reflect hp hr hd hn "john"
  have hname := hchild.mpr hcomponents
  rw [hcomponents, List.getLast?_concat, Option.getD_some] at hbase
  exact ⟨⟨hp, hr, hd, hn⟩, Bool.eq_false_iff.mpr (mt hwithin.mp hbeside), hname, hbase, hjoined, heq hname⟩

end FileFixture.Path
