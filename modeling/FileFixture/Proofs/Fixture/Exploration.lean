import FileFixture.Proofs.Fixture.Tour
import FileFixture.Proofs.Fixture.Tree

/-!
Two ways to see a tree. A consumer may list a directory and go on into every directory that is listed, or it may
walk. Where files have nothing below them and no error is injected, both come upon the same paths, each of them
once: what lies below a directory is divided among its children.
-/
namespace FileFixture.Fixture

open FileFixture.Path (components ofComponents)

variable {f : Fixture} {dir key : String}

/-! ### The children of a directory -/

section Children

variable (h : Rooted f.entries)

include h

theorem mem_pathsWithin_iff_components (hdir : dir ∈ f.paths) :
    key ∈ f.pathsWithin dir ↔ key ∈ f.paths ∧ components dir <+: components key := by
  rw [mem_pathsWithin]
  exact and_congr_right fun hkey => Path.isWithin_iff_components (h.normal _ hkey) (h.normal _ hdir)

theorem eq_of_components_eq (hkey : key ∈ f.paths) (hdir : dir ∈ f.paths) (heq : components key = components dir) :
    key = dir := Path.components_inj (h.normal _ hkey) (h.normal _ hdir) heq

theorem child_components (hdir : dir ∈ f.paths) {b : String × Entry} (hb : b ∈ f.childBindings dir) :
    b.1 ∈ f.paths ∧ ∃ part, components b.1 = components dir ++ [part] := by
  obtain ⟨hg, name, hname⟩ := mem_childBindings.mp hb
  have hkey : b.1 ∈ f.paths := Catalog.mem_keys_iff.mpr ⟨b.2, hg⟩
  exact ⟨hkey, _, (Path.childName_iff_components (h.normal _ hkey) (h.normal _ hdir)).mp hname⟩

/-- Where a path has components more than a directory, the first of them is a child's. -/
theorem exists_child_of_components (hdir : dir ∈ f.paths) (hkey : key ∈ f.paths) {part : List Char}
    (hpart : components dir ++ [part] <+: components key) :
    ∃ b ∈ f.childBindings dir, key ∈ f.pathsWithin b.1 := by
  have hchild := h.ofComponents_mem hkey hpart
  have hnames : ∀ p ∈ components dir ++ [part], Path.IsName p := fun p hp =>
    Path.isName_of_mem_components p (hpart.subset hp)
  have hcomponents := Path.components_ofComponents hnames
  have hname : Path.childName (ofComponents (components dir ++ [part])) dir = some (String.ofList part) := by
    rw [Path.childName_iff_components (h.normal _ hchild) (h.normal _ hdir), hcomponents, String.toList_ofList]
  obtain ⟨e, hg⟩ := Catalog.mem_keys_iff.mp hchild
  refine ⟨(_, e), mem_childBindings.mpr ⟨hg, _, hname⟩, ?_⟩
  rw [mem_pathsWithin_iff_components h hchild, hcomponents]
  exact ⟨hkey, hpart⟩

/-- What lies below a directory lies at or below one of its children. -/
theorem mem_pathsWithin_iff_child (hdir : dir ∈ f.paths) :
    key ∈ f.pathsWithin dir ↔ key = dir ∨ ∃ b ∈ f.childBindings dir, key ∈ f.pathsWithin b.1 := by
  constructor
  · intro hm
    obtain ⟨hkey, below, hbelow⟩ := (mem_pathsWithin_iff_components h hdir).mp hm
    cases below with
    | nil => exact Or.inl (eq_of_components_eq h hkey hdir (by rw [← hbelow, List.append_nil]))
    | cons part below =>
      have hpart : components dir ++ [part] <+: components key := ⟨below, by rw [← hbelow]; simp⟩
      exact Or.inr (exists_child_of_components h hdir hkey hpart)
  · rintro (rfl | ⟨b, hb, hm⟩)
    · exact mem_pathsWithin.mpr ⟨hdir, Path.isWithin_self key⟩
    · obtain ⟨hkey, hw⟩ := mem_pathsWithin.mp hm
      obtain ⟨-, name, hname⟩ := mem_childBindings.mp hb
      exact mem_pathsWithin.mpr ⟨hkey, Path.isWithin_trans hw (Path.isWithin_of_childName hname)⟩

theorem notMem_pathsWithin_child (hdir : dir ∈ f.paths) {b : String × Entry} (hb : b ∈ f.childBindings dir) :
    dir ∉ f.pathsWithin b.1 := by
  intro hm
  obtain ⟨hchild, part, hpart⟩ := child_components h hdir hb
  have hl := ((mem_pathsWithin_iff_components h hchild).mp hm).2.length_le
  rw [hpart, List.length_append, List.length_singleton] at hl
  omega

/-- No path lies at or below two children. -/
theorem child_eq_of_mem_pathsWithin (hdir : dir ∈ f.paths) {b c : String × Entry}
    (hb : b ∈ f.childBindings dir) (hc : c ∈ f.childBindings dir) (hkb : key ∈ f.pathsWithin b.1)
    (hkc : key ∈ f.pathsWithin c.1) : b.1 = c.1 := by
  obtain ⟨hbpath, part, hpart⟩ := child_components h hdir hb
  obtain ⟨hcpath, part', hpart'⟩ := child_components h hdir hc
  have hkb := ((mem_pathsWithin_iff_components h hbpath).mp hkb).2
  have hkc := ((mem_pathsWithin_iff_components h hcpath).mp hkc).2
  -- Both are as long as the directory and one component more, and both begin the same path.
  have hl : (components b.1).length = (components c.1).length := by
    rw [hpart, hpart', List.length_append, List.length_append, List.length_singleton, List.length_singleton]
  exact eq_of_components_eq h hbpath hcpath ((List.prefix_of_prefix_length_le hkb hkc hl.le).eq_of_length hl)

/-- What lies below a directory is divided among its children. -/
theorem pathsWithin_perm_children (hdir : dir ∈ f.paths) :
    (f.pathsWithin dir).Perm (dir :: (f.childBindings dir).flatMap fun b => f.pathsWithin b.1) := by
  have hdisjoint : (f.childBindings dir).Pairwise fun b c => (f.pathsWithin b.1).Disjoint (f.pathsWithin c.1) := by
    refine (f.childBindings_ascending dir).imp_of_mem fun {b c} hb hc hlt k hkb hkc => ?_
    rw [child_eq_of_mem_pathsWithin h hdir hb hc hkb hkc] at hlt
    exact String.lt_irrefl _ hlt
  have hnodup : (dir :: (f.childBindings dir).flatMap fun b => f.pathsWithin b.1).Nodup := by
    refine List.nodup_cons.mpr ⟨?_, List.nodup_flatMap.mpr ⟨fun b _ => f.pathsWithin_nodup b.1, hdisjoint⟩⟩
    intro hm
    obtain ⟨b, hb, hm⟩ := List.mem_flatMap.mp hm
    exact notMem_pathsWithin_child h hdir hb hm
  refine (List.perm_ext_iff_of_nodup (f.pathsWithin_nodup dir) hnodup).mpr fun key => ?_
  rw [mem_pathsWithin_iff_child h hdir, List.mem_cons, List.mem_flatMap]

end Children

/-! ### Exploration -/

/-- Lists a directory and goes on into each directory in the listing, and tells which paths were reached. A fault
ends it. Without an answer it has come to a directory more than `depth` levels down. -/
def explore (f : Fixture) : (depth : Nat) → (dir : String) → ExceptT Fault Option (List String)
  | 0, _ => .mk none
  | depth + 1, dir => do
    let listed ← liftExcept (f.list dir).result
    let below ← listed.mapM fun e => if e.isDir then explore f depth e.path else pure [e.path]
    return dir :: below.flatten

theorem explore_eq_of_list {listed : List Entry} {depth : Nat} {below : List (List String)}
    (hl : (f.list dir).result = .ok listed)
    (hb : (listed.mapM fun e => if e.isDir then f.explore depth e.path else pure [e.path]) = pure below) :
    f.explore (depth + 1) dir = pure (dir :: below.flatten) := by
  have hlisted : liftExcept (.ok listed : Except Fault _) = (pure listed : ExceptT Fault Option _) := rfl
  rw [explore, hl, hlisted, pure_bind, hb, pure_bind]

/-- No error is injected, and only directories have anything below them. -/
structure Browsable (f : Fixture) : Prop where
  clean : ∀ key e, f.get? key = some e → e.error = none
  leaf : ∀ key e, f.get? key = some e → e.isDir = false →
    ∀ k ∈ f.paths, Path.isWithin k key = true → k = key

theorem browsable_iff : f.Browsable ↔ ∀ b ∈ f.entries.bindings, b.2.error = none ∧
    (b.2.isDir = false → ∀ k ∈ f.paths, Path.isWithin k b.1 = true → k = b.1) := by
  constructor
  · intro h b hb
    have hg : f.get? b.1 = some b.2 := Catalog.get?_eq_some_iff.mpr hb
    exact ⟨h.clean _ _ hg, h.leaf _ _ hg⟩
  · intro h
    have hb : ∀ key e, f.get? key = some e → (key, e) ∈ f.entries.bindings :=
      fun _ _ => Catalog.get?_eq_some_iff.mp
    exact ⟨fun key e hg => (h _ (hb key e hg)).1, fun key e hg => (h _ (hb key e hg)).2⟩

instance : Decidable f.Browsable := decidable_of_iff _ browsable_iff.symm

namespace Browsable

variable (h : f.Browsable)

include h

theorem pathsWithin_leaf {e : Entry} (hkey : f.get? key = some e) (hleaf : e.isDir = false) :
    f.pathsWithin key = [key] := by
  have hmem : ∀ k, k ∈ f.pathsWithin key ↔ k ∈ [key] := by
    intro k
    rw [mem_pathsWithin, List.mem_singleton]
    constructor
    · rintro ⟨hk, hw⟩
      exact h.leaf key e hkey hleaf k hk hw
    · rintro rfl
      exact ⟨Catalog.mem_keys_iff.mpr ⟨e, hkey⟩, Path.isWithin_self k⟩
  exact List.perm_singleton.mp ((List.perm_ext_iff_of_nodup (f.pathsWithin_nodup key) (by simp)).mpr hmem)

variable (hrooted : Rooted f.entries) (hkeyed : Keyed f.entries)

include hkeyed in
/-- A member of a listing is gone into if it is a directory; otherwise it is all there is at its path. -/
theorem explore_children {bs : List (String × Entry)} {levels : Nat} (hbs : ∀ b ∈ bs, f.get? b.1 = some b.2)
    (hsub : ∀ b ∈ bs, b.2.isDir = true → ∃ reached,
      (∀ depth, levels ≤ depth → f.explore depth b.1 = pure reached) ∧ reached.Perm (f.pathsWithin b.1)) :
    ∃ below, (∀ depth, levels ≤ depth →
        ((bs.map (·.2)).mapM fun e => if e.isDir then f.explore depth e.path else pure [e.path]) = pure below) ∧
      below.flatten.Perm (bs.flatMap fun b => f.pathsWithin b.1) := by
  induction bs with
  | nil => exact ⟨[], fun _ _ => rfl, List.Perm.refl _⟩
  | cons b bs ih =>
    obtain ⟨key, e⟩ := b
    obtain ⟨hg, hbs⟩ := List.forall_mem_cons.mp hbs
    obtain ⟨hdir, hsub⟩ := List.forall_mem_cons.mp hsub
    obtain ⟨below, hbelow, hperm⟩ := ih hbs hsub
    have hpath : e.path = key := hkeyed key e hg
    have hfirst : ∃ reached, (∀ depth, levels ≤ depth →
        (if e.isDir then f.explore depth e.path else pure [e.path]) = pure reached) ∧
        reached.Perm (f.pathsWithin key) := by
      rw [hpath]
      cases hd : e.isDir with
      | true => exact hdir hd
      | false => exact ⟨[key], fun _ _ => rfl, by rw [h.pathsWithin_leaf hg hd]⟩
    obtain ⟨reached, hreached, hpermFirst⟩ := hfirst
    refine ⟨reached :: below, fun depth hdepth => ?_, ?_⟩
    · rw [List.map_cons, List.mapM_cons, hreached depth hdepth, pure_bind, hbelow depth hdepth, pure_bind]
    · rw [List.flatten_cons, List.flatMap_cons]
      exact hpermFirst.append hperm

include hrooted hkeyed in
/-- By induction on the number of paths below the directory, which is smaller for each of its children and bounds
how deep they lie. -/
theorem explore_perm {e : Entry} (hdir : f.get? dir = some e) (hisDir : e.isDir = true) :
    ∃ reached, (∀ depth, (f.pathsWithin dir).length ≤ depth → f.explore depth dir = pure reached) ∧
      reached.Perm (f.pathsWithin dir) := by
  generalize hn : (f.pathsWithin dir).length = n
  induction n using Nat.strongRecOn generalizing dir e with
  | ind n ih =>
    have hmem : dir ∈ f.paths := Catalog.mem_keys_iff.mpr ⟨e, hdir⟩
    have hchildren := pathsWithin_perm_children hrooted hmem
    have hlength := hchildren.length_eq
    rw [hn, List.length_cons, List.flatMap_def] at hlength
    have hbs : ∀ b ∈ f.childBindings dir, f.get? b.1 = some b.2 := fun b hb => (mem_childBindings.mp hb).1
    have hclean : ∀ b ∈ f.childBindings dir, b.2.error = none := fun b hb => h.clean b.1 b.2 (hbs b hb)
    have hsub : ∀ b ∈ f.childBindings dir, b.2.isDir = true → ∃ reached,
        (∀ depth, n - 1 ≤ depth → f.explore depth b.1 = pure reached) ∧ reached.Perm (f.pathsWithin b.1) := by
      intro b hb hd
      -- Besides those below the child there is the directory itself, so a level less is enough.
      have hpart := List.sublist_flatten_of_mem (List.mem_map_of_mem (f := fun b => f.pathsWithin b.1) hb)
      have hle := hpart.length_le
      obtain ⟨reached, hreached, hperm⟩ := ih _ (by omega) (hbs b hb) hd rfl
      exact ⟨reached, fun depth hdepth => hreached depth (by omega), hperm⟩
    obtain ⟨below, hbelow, hperm⟩ := h.explore_children hkeyed hbs hsub
    refine ⟨dir :: below.flatten, fun depth hdepth => ?_, (hperm.cons dir).trans hchildren.symm⟩
    cases depth with
    | zero => omega
    | succ depth =>
      have hl := list_clean hdir (h.clean dir e hdir) hisDir hclean
      exact explore_eq_of_list hl (hbelow depth (by omega))

end Browsable

/-- Whoever explores a directory comes to an end without a fault, and upon each path that a walk visits once. -/
theorem explore_perm_walk_visits (hf : FromSpecs f) (h : f.Browsable) {e : Entry} (hdir : f.get? dir = some e)
    (hisDir : e.isDir = true) {σ : Type} (visitor : Visitor σ) (s : σ) :
    (f.walk dir visitor s).answer.result = .ok () ∧
      ∃ reached, (∀ depth, f.paths.length ≤ depth → (f.explore depth dir).run = some (.ok reached)) ∧
        reached.Perm ((f.walk dir visitor s).visits.map (·.path)) ∧ reached.Nodup := by
  have hrooted : Rooted f.entries := Rooted.kept.fromSpecs Rooted.empty hf
  have hkeyed : Keyed f.entries := Keyed.kept.fromSpecs Keyed.empty hf
  have hwalk : f.walk dir visitor s = .full visitor s (f.visits dir) :=
    tour_enterable hdir (h.clean dir e hdir) hisDir s _
  have hpaths : (f.walk dir visitor s).visits.map (·.path) = f.pathsWithin dir := by
    rw [hwalk]
    exact f.visits_map_path dir
  obtain ⟨reached, hreached, hperm⟩ := h.explore_perm hrooted hkeyed hdir hisDir
  refine ⟨by rw [hwalk]; rfl, reached, fun depth hdepth => ?_, hpaths ▸ hperm, ?_⟩
  · rw [hreached depth ((f.length_pathsWithin_le dir).trans hdepth)]
    rfl
  · exact hperm.nodup_iff.mpr (f.pathsWithin_nodup dir)

/-- The directory beside `/a` whose path begins alike is neither listed nor walked over. -/
theorem explore_perm_walk_visits_of_specs :
    let f := ofSpecs ["/a [b, c] / d [x]", "/a-b/ [y]"]
    f.paths = ["/", "/a", "/a-b", "/a-b/y", "/a/b", "/a/c", "/a/d", "/a/d/x"] ∧
      ∃ reached, (f.explore 8 "/a").run = some (.ok reached) ∧
        reached.Perm ["/a", "/a/b", "/a/c", "/a/d", "/a/d/x"] := by
  intro f
  have hpaths : f.paths = ["/", "/a", "/a-b", "/a-b/y", "/a/b", "/a/c", "/a/d", "/a/d/x"] := by decide
  have hb : f.Browsable := by decide
  have hdir : f.get? "/a" = some { Entry.dir "a" with path := "/a" } := by decide
  have hvisits : (f.walk "/a" (fun (_ : Unit) _ => ((), none)) ()).visits.map (·.path) =
      ["/a", "/a/b", "/a/c", "/a/d", "/a/d/x"] := by decide
  obtain ⟨-, reached, hreached, hperm, -⟩ :=
    explore_perm_walk_visits (fromSpecs_ofSpecs _) hb hdir rfl (fun (_ : Unit) _ => ((), none)) ()
  exact ⟨hpaths, reached, hreached 8 (by rw [hpaths]; decide), hvisits ▸ hperm⟩

end FileFixture.Fixture
