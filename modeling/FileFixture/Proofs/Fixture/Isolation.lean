import FileFixture.Proofs.Fixture.Change
import FileFixture.Proofs.Fixture.Selection

/-!
Subtrees are isolated. Whatever is asked at a path is decided by the entries at the path and below it, so two
fixtures with the same entries there answer alike, and changes made elsewhere are not noticed: neither at a
sibling whose path begins with the same characters, nor at a place above.
-/
namespace FileFixture.Fixture

/-- All queries at a path get the same answers with the same records, and all walks make the same visits. -/
structure AlikeAt (f g : Fixture) (path : String) : Prop where
  stat : f.stat path = g.stat path
  content : f.content path = g.content path
  list : f.list path = g.list path
  walk : ∀ {σ : Type} (visitor : Visitor σ) (s : σ), f.walk path visitor s = g.walk path visitor s
  walkUntil : ∀ {σ : Type} (visitor : Visitor σ) (s : σ), f.walkUntil path visitor s = g.walkUntil path visitor s

/-- The same entries at a path and everywhere below it. -/
def AgreeWithin (f g : Fixture) (root : String) : Prop :=
  ∀ key, Path.isWithin key root = true → f.get? key = g.get? key

section AgreeWithin

variable {f g : Fixture} {root path : String}

theorem AgreeWithin.mono (h : AgreeWithin f g root) (hpath : Path.isWithin path root = true) :
    AgreeWithin f g path := fun key hkey => h key (Path.isWithin_trans hkey hpath)

theorem AgreeWithin.subtree_eq (h : AgreeWithin f g path) : f.subtree path = g.subtree path := by
  rw [subtree_eq_filter, subtree_eq_filter]
  exact Catalog.filter_bindings_congr (p := fun key => Path.isWithin key path) h

theorem AgreeWithin.childBindings_eq (h : AgreeWithin f g path) :
    f.childBindings path = g.childBindings path := by
  refine Catalog.filter_bindings_congr (p := fun key => (Path.childName key path).isSome) fun key hkey => ?_
  obtain ⟨name, hname⟩ := Option.isSome_iff_exists.mp hkey
  exact h key (Path.isWithin_of_childName hname)

theorem AgreeWithin.alikeAt (h : AgreeWithin f g path) : AlikeAt f g path := by
  have hpath : f.get? path = g.get? path := h path (Path.isWithin_self path)
  constructor
  · exact lookup_congr hpath "stat"
  · exact content_congr hpath
  · exact list_congr hpath h.childBindings_eq
  · exact fun visitor s => tour_congr hpath h.subtree_eq s _
  · exact fun visitor s => tour_congr hpath h.subtree_eq s _

/-- Changes keep everything within a path that none of them touches. -/
theorem agreeWithin_run {cs : List Change} (h : ∀ t ∈ history cs, Path.isWithin t.path root = false) :
    AgreeWithin (f.run cs) f root := by
  intro key hkey
  have hne : ∀ t ∈ history cs, t.path ≠ key := by
    intro t ht hp
    have hw := h t ht
    rw [hp, hkey] at hw
    cases hw
  rw [get?, entries_run, Touch.get?_foldl_act_of_ne hne]
  rfl

end AgreeWithin

/-- Queries within a path answer alike in fixtures that agree there, and so they do before and after changes of
which none touches the path or anything below it. -/
theorem alikeAt_within :
    (∀ (f g : Fixture) (root : String), AgreeWithin f g root →
      ∀ path, Path.isWithin path root = true → AlikeAt f g path) ∧
    ∀ (f : Fixture) (cs : List Change) (root : String),
      (∀ t ∈ history cs, Path.isWithin t.path root = false) →
      ∀ path, Path.isWithin path root = true → AlikeAt (f.run cs) f path :=
  ⟨fun _ _ _ h _ hpath => (h.mono hpath).alikeAt,
    fun _ _ _ h _ hpath => ((agreeWithin_run h).mono hpath).alikeAt⟩

/-- An erroneous sibling `/a-b` and an error at the root do not show in `/a`. -/
theorem alikeAt_within_beside_sibling :
    let f := ofSpecs ["/a [c] / b [d]"]
    let g := f.run [.addSpecs ["/a-b (err=no)"], .configure "/" [.edit (.setError "no")]]
    AlikeAt g f "/a" ∧ AlikeAt f g "/a/b" ∧ g.get? "/a-b" ≠ f.get? "/a-b" ∧ g.get? "/" ≠ f.get? "/" := by
  intro f g
  have h : ∀ t ∈ history [.addSpecs ["/a-b (err=no)"], .configure "/" [.edit (.setError "no")]],
      Path.isWithin t.path "/a" = false := by decide
  have hagree : AgreeWithin f g "/a" := fun key hkey => (agreeWithin_run h key hkey).symm
  exact ⟨alikeAt_within.2 f _ "/a" h "/a" (by decide), alikeAt_within.1 f g "/a" hagree "/a/b" (by decide),
    by decide, by decide⟩

end FileFixture.Fixture
