import FileFixture.Proofs.Fixture.History
import FileFixture.Proofs.Fixture.Injection
import FileFixture.Proofs.Fixture.Tree

/-!
The root and the keys. Whatever is put in and edited, the root stays the directory that it was made, every entry
is kept under its own path, and no path is empty. As long as each entry was declared by a spec or put at the path
that placing gave it, all paths are in normal form, and nothing is found under a path that is not.
-/
namespace FileFixture

namespace Entry

/-- The entry of the root, whatever content, error and mode it has been given. -/
structure AtRoot (e : Entry) : Prop where
  name : e.name = Path.root
  path : e.path = Path.root
  isDir : e.isDir = true
  size : e.size = 0
  modTime : e.modTime = .epoch

theorem atRoot_root : root.AtRoot := ⟨rfl, rfl, rfl, rfl, rfl⟩

theorem AtRoot.edit {e : Entry} (h : e.AtRoot) (d : Edit) : (e.edit d).AtRoot := by
  obtain ⟨hname, hpath, hisDir, hsize, hmodTime⟩ := h
  cases d <;> exact ⟨hname, hpath, hisDir, hsize, hmodTime⟩

/-- An entry that a spec declares, or that has the path which placing some entry gave to it. What else was set in
it, before or after, does not matter. -/
inductive Sited (e : Entry) : Prop
  | declared {spec : String} : e ∈ Spec.parse spec → Sited e
  | placed (e₀ : Entry) {path : String} : e.path = (e₀.place path).path → Sited e

theorem Sited.normal {e : Entry} (h : e.Sited) : Path.normalize e.path = e.path := by
  cases h with
  | declared hm => exact (Spec.placed_of_mem_parse hm).normal
  | placed _ hp =>
    rw [hp]
    exact Path.normalize_normalize _

end Entry

theorem Keyed.act {c : Catalog Entry} (h : Keyed c) (t : Touch) : Keyed (Touch.act c t) := by
  intro key e hg
  cases t with
  | put e' =>
    rw [Touch.act] at hg
    split at hg
    case isTrue =>
      rw [Catalog.get?_insert] at hg
      split at hg
      case isTrue hp => exact Option.some.inj hg ▸ hp
      case isFalse => exact h key e hg
    case isFalse => exact h key e hg
  | edit path d =>
    rw [Touch.act, Catalog.get?_modify] at hg
    split at hg
    case isTrue =>
      obtain ⟨e', he', rfl⟩ := Option.map_eq_some_iff.mp hg
      exact (e'.edit_path d).trans (h key e' he')
    case isFalse => exact h key e hg

/-- The root is there, and every entry is found under its own path, which is never empty. -/
structure Anchored (c : Catalog Entry) : Prop where
  root : ∃ e, c.get? Path.root = some e ∧ e.AtRoot
  keyed : Keyed c
  empty_notMem : "" ∉ c.keys

namespace Anchored

variable {c : Catalog Entry}

/-- No entry is accepted at the root, and an edit leaves everything that makes it the root. -/
theorem act (h : Anchored c) (t : Touch) : Anchored (Touch.act c t) where
  root := by
    obtain ⟨e, hg, he⟩ := h.root
    cases t with
    | put e' =>
      rw [Touch.act]
      split
      case isTrue ha => exact ⟨e, by rw [Catalog.get?_insert, if_neg (Fixture.accepts_iff.mp ha).2, hg], he⟩
      case isFalse => exact ⟨e, hg, he⟩
    | edit path d =>
      rw [Touch.act, Catalog.get?_modify]
      split
      case isTrue => exact ⟨e.edit d, by rw [hg]; rfl, he.edit d⟩
      case isFalse => exact ⟨e, hg, he⟩
  keyed := h.keyed.act t
  empty_notMem := by
    rw [Touch.mem_keys_act]
    rintro (hk | ⟨e, -, ha, hp⟩)
    · exact h.empty_notMem hk
    · exact (Fixture.accepts_iff.mp ha).1 hp

theorem foldl (h : Anchored c) (ts : List Touch) : Anchored (ts.foldl Touch.act c) := by
  induction ts generalizing c with
  | nil => exact h
  | cons t ts ih => exact ih (h.act t)

theorem kept : Fixture.Kept Anchored where
  spec := fun _ h _ => h.foldl _
  edit := fun _ h path d => h.act (.edit path d)

theorem empty : Anchored Fixture.empty.entries where
  root := ⟨Entry.root, Catalog.get?_insert_self _ _ _, Entry.atRoot_root⟩
  keyed := Keyed.empty
  empty_notMem := by
    intro hk
    exact absurd (List.mem_singleton.mp hk) (by decide)

theorem size_ne_zero (h : Anchored c) : c.size ≠ 0 := by
  obtain ⟨e, hg, -⟩ := h.root
  have hm : Path.root ∈ c.keys := Catalog.mem_keys_iff.mpr ⟨e, hg⟩
  rw [Catalog.size_eq_length_keys]
  exact Nat.ne_of_gt (List.length_pos_of_mem hm)

end Anchored

namespace Fixture

theorem refusedAt_of_missing {f : Fixture} {path : String} (h : f.get? path = none) :
    f.RefusedAt path (.notFound path) := by
  refine refusedAt_of_lookup (.missing h) fun op => ?_
  rw [lookup_eq, h]
  rfl

/-- The keys that are in normal form at the start, and those of entries that are sited. -/
theorem normal_of_mem_paths_run {f : Fixture} (hf : ∀ key ∈ f.paths, Path.normalize key = key) {cs : List Change}
    (hcs : ∀ e, .put e ∈ history cs → e.Sited) : ∀ key ∈ (f.run cs).paths, Path.normalize key = key := by
  intro key hk
  rw [paths, entries_run, Touch.mem_keys_foldl_act] at hk
  rcases hk with hk | ⟨e, hm, -, rfl⟩
  · exact hf key hk
  · exact (hcs e hm).normal

/-- However a fixture came into being and whatever was done to it since, its root is there and every entry is kept
under its own path; where no entry was given a path of another form, every other form of a path is not found. -/
theorem build_run_anchored {o : Origin} {f : Fixture} {events : List Event} (h : o.build = .ok (f, events))
    (cs : List Change) :
    let g := f.run cs
    (∃ e, g.get? Path.root = some e ∧ e.name = Path.root ∧ e.path = Path.root ∧ e.isDir = true ∧
      e.size = 0 ∧ e.modTime = .epoch) ∧
    "" ∉ g.paths ∧
    (∀ key e, g.get? key = some e → e.path = key) ∧
    g.size ≠ 0 ∧
    ((∀ e, .put e ∈ history cs → e.Sited) →
      (∀ key ∈ g.paths, Path.normalize key = key) ∧
        ∀ path, Path.normalize path ≠ path → g.RefusedAt path (.notFound path)) := by
  intro g
  have hg : Anchored g.entries := by
    rw [entries_run]
    exact (Anchored.kept.origin Anchored.empty h).foldl _
  obtain ⟨e, hroot, he⟩ := hg.root
  refine ⟨⟨e, hroot, he.name, he.path, he.isDir, he.size, he.modTime⟩, hg.empty_notMem, hg.keyed,
    hg.size_ne_zero, fun hcs => ?_⟩
  have hnormal : ∀ key ∈ g.paths, Path.normalize key = key :=
    normal_of_mem_paths_run (Rooted.kept.origin Rooted.empty h).normal hcs
  refine ⟨hnormal, fun path hpath => refusedAt_of_missing ?_⟩
  rw [get?_eq_none_iff]
  exact fun hm => hpath (hnormal path hm)

/-- An entry aimed at the root is not accepted, an edit of the root leaves it a directory, and an entry that was
placed at a path of another form is not found under that form. -/
theorem build_run_anchored_placed :
    let f := ofSpecs ["/../a [b]"]
    let g := f.run [.insert { (Entry.file "/" |>.place "x/..") with error := some "no" },
      .configure "/" [.edit (.setError "no"), .edit (.setMode 7)], .extend [Entry.file "c" |>.place "a\\.//c"]]
    g.paths = ["/", "/a", "/a/b", "/a/c"] ∧ (∃ e, g.get? "/" = some e ∧ e.isDir = true) ∧
      g.RefusedAt "a\\.//c" (.notFound "a\\.//c") := by
  intro f g
  obtain ⟨⟨e, hroot, -, -, hisDir, -⟩, -, -, -, hsited⟩ :=
    build_run_anchored (o := .specs ["/../a [b]"] .unset) rfl
      [.insert { (Entry.file "/" |>.place "x/..") with error := some "no" },
        .configure "/" [.edit (.setError "no"), .edit (.setMode 7)], .extend [Entry.file "c" |>.place "a\\.//c"]]
  refine ⟨by decide, ⟨e, hroot, hisDir⟩, (hsited fun e he => ?_).2 _ (by decide)⟩
  have he' : e = { (Entry.file "/" |>.place "x/..") with error := some "no" } ∨
      e = (Entry.file "c" |>.place "a\\.//c") := by
    simpa [history, Change.touches, Access.edit?] using he
  rcases he' with rfl | rfl
  · exact .placed (Entry.file "/") rfl
  · exact .placed (Entry.file "c") rfl

end Fixture
end FileFixture
