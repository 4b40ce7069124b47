import FileFixture.Proofs.Fixture.Listing
import FileFixture.Proofs.Fixture.Reach
import FileFixture.Proofs.Spec.Ancestry
import FileFixture.Proofs.Text.ByteOrder

/-!
The fixtures that specs lead to are trees. Every entry but the root is named after its path, so that listings
ascend by name, and whatever is stored, the places above it are stored as well.
-/
namespace FileFixture

open FileFixture.Path (ofComponents components parent)

/-- Every entry but the root is named after its path. -/
def Named (c : Catalog Entry) : Prop :=
  ∀ key e, c.get? key = some e → key ≠ Path.root → e.name = Path.baseName key

theorem accepts_of_placed {e : Entry} (h : e.Placed) : Fixture.accepts e = true := by
  refine Fixture.accepts_iff.mpr ⟨fun he => ?_, h.below_root⟩
  have hn := h.normal
  rw [he] at hn
  exact absurd hn (by decide)

/-- A property of single entries is kept if it holds of every entry that can be declared and no edit ends it. -/
theorem Fixture.Kept.forall_entries {P : String → Entry → Prop} (hput : ∀ e : Entry, e.Placed → P e.path e)
    (hedit : ∀ key e d, P key e → P key (e.edit d)) :
    Fixture.Kept fun c => ∀ key e, c.get? key = some e → P key e where
  spec := by
    intro c h spec
    have hes : ∀ e ∈ Spec.parse spec, e.Placed := fun e he => Spec.placed_of_mem_parse he
    generalize Spec.parse spec = es at hes
    induction es generalizing c with
    | nil => exact h
    | cons e es ih =>
      obtain ⟨he, hes⟩ := List.forall_mem_cons.mp hes
      refine ih _ (fun key e' hg => ?_) hes
      rw [Touch.act, if_pos (accepts_of_placed he), Catalog.get?_insert] at hg
      split at hg
      case isTrue hp =>
        cases hg
        exact hp ▸ hput e he
      case isFalse => exact h key e' hg
  edit := by
    intro c h path d key e hg
    rw [Touch.act, Catalog.get?_modify] at hg
    split at hg
    case isTrue =>
      obtain ⟨e', he', rfl⟩ := Option.map_eq_some_iff.mp hg
      exact hedit key e' d (h key e' he')
    case isFalse => exact h key e hg

namespace Named

theorem kept : Fixture.Kept Named :=
  .forall_entries (fun _ he _ => he.name_eq) fun _ _ _ h hk => (Entry.edit_name _ _).trans (h hk)

theorem empty : Named Fixture.empty.entries := by
  intro key e hg hk
  have hn : Fixture.empty.entries.get? key = none := Fixture.get?_empty hk
  rw [hn] at hg
  cases hg

end Named

/-- Every entry is kept under its own path. -/
def Keyed (c : Catalog Entry) : Prop := ∀ key e, c.get? key = some e → e.path = key

namespace Keyed

theorem kept : Fixture.Kept Keyed :=
  .forall_entries (fun _ _ => rfl) fun _ _ _ h => (Entry.edit_path _ _).trans h

theorem empty : Keyed Fixture.empty.entries := by
  intro key e hg
  obtain ⟨rfl, rfl⟩ : key = Path.root ∧ e = Entry.root := by
    simpa using List.mem_singleton.mp (Catalog.get?_eq_some_iff.mp hg)
  rfl

end Keyed

/-- Keys in normal form, with the place that each of them stands in. -/
structure Rooted (c : Catalog Entry) : Prop where
  normal : ∀ key ∈ c.keys, Path.normalize key = key
  root_mem : Path.root ∈ c.keys
  parent_mem : ∀ key ∈ c.keys, parent key ∈ c.keys

namespace Rooted

variable {c : Catalog Entry}

theorem put (h : Rooted c) {e : Entry} (he : e.Placed)
    (hp : parent e.path = Path.root ∨ parent e.path ∈ c.keys) : Rooted (Touch.act c (.put e)) := by
  rw [Touch.act, if_pos (accepts_of_placed he)]
  have hparent : parent e.path ∈ c.keys := hp.elim (fun hr => hr ▸ h.root_mem) id
  constructor
  · intro key hk
    rcases Catalog.mem_keys_insert.mp hk with rfl | hk
    · exact he.normal
    · exact h.normal key hk
  · exact Catalog.mem_keys_insert.mpr (Or.inr h.root_mem)
  · intro key hk
    rcases Catalog.mem_keys_insert.mp hk with rfl | hk
    · exact Catalog.mem_keys_insert.mpr (Or.inr hparent)
    · exact Catalog.mem_keys_insert.mpr (Or.inr (h.parent_mem key hk))

/-- Entries may be put in one after the other if none of them comes before the place that it stands in. -/
theorem puts (h : Rooted c) {es : List Entry} (hes : ∀ e ∈ es, e.Placed)
    (hp : Spec.ParentsFirst c.keys es) : Rooted ((es.map Touch.put).foldl Touch.act c) := by
  induction es generalizing c with
  | nil => exact h
  | cons e es ih =>
    obtain ⟨he, hes⟩ := List.forall_mem_cons.mp hes
    refine ih (h.put he hp.1) hes (hp.2.mono fun p hm => ?_)
    rw [Touch.act, if_pos (accepts_of_placed he), Catalog.mem_keys_insert]
    exact List.mem_cons.mp hm

theorem kept : Fixture.Kept Rooted where
  spec := by
    intro c h spec
    exact h.puts (fun _ he => Spec.placed_of_mem_parse he) (Spec.parentsFirst_parse c.keys spec)
  edit := by
    intro c h path d
    have hk : (Touch.act c (.edit path d)).keys = c.keys := Catalog.keys_modify c path _
    constructor
    · rw [hk]
      exact h.normal
    · rw [hk]
      exact h.root_mem
    · rw [hk]
      exact h.parent_mem

theorem empty : Rooted Fixture.empty.entries := by
  have hk : ∀ key ∈ Fixture.empty.entries.keys, key = Path.root := fun key => List.mem_singleton.mp
  have hm : Path.root ∈ Fixture.empty.entries.keys := List.mem_singleton.mpr rfl
  constructor
  · intro key hkey
    rw [hk key hkey]
    decide
  · exact hm
  · intro key hkey
    have hp : parent Path.root = Path.root := by rw [parent, Path.components_root]; rfl
    rw [hk key hkey, hp]
    exact hm

/-- With a key all places above it are stored. -/
theorem ofComponents_mem (h : Rooted c) {key : String} (hk : key ∈ c.keys) {parts : List (List Char)}
    (hp : parts <+: components key) : ofComponents parts ∈ c.keys := by
  generalize hcs : components key = cs at hp
  induction cs using List.reverseRecOn generalizing key with
  | nil =>
    rw [List.prefix_nil.mp hp]
    exact h.root_mem
  | append_singleton cs last ih =>
    rcases List.prefix_concat_iff.mp hp with rfl | hp
    · rw [← hcs, ← Path.normalize_eq, h.normal key hk]
      exact hk
    · have hn : ∀ p ∈ cs, Path.IsName p := fun p hm =>
        Path.isName_of_mem_components p (hcs ▸ List.mem_append_left _ hm)
      refine ih (h.parent_mem key hk) ?_ hp
      rw [parent, hcs, List.dropLast_concat, Path.components_ofComponents hn]

end Rooted

namespace Path

/-- A path in normal form from which further components lead to another path. -/
structure IsAncestor (path key : String) : Prop where
  normal : normalize path = path
  above : ∃ below, below ≠ [] ∧ components key = components path ++ below

end Path

namespace Fixture

/-- What any text declares can be put in, and whatever specs have led to, every entry but the root is named
after its path and every listing that is not refused ascends by name. -/
theorem parse_placed_and_fromSpecs_named :
    (∀ spec, ∀ e ∈ Spec.parse spec, e.Placed ∧ (e.size = 0 ∧ e.mode = 0 ∧ e.modTime = .epoch) ∧
      ∀ s : Session, (s.step (.insert e)).reply = .flag true) ∧
    ∀ f, FromSpecs f →
      (∀ key e, f.get? key = some e → key ≠ Path.root → e.name = Path.baseName key) ∧
      ∀ dir es, (f.list dir).result = .ok es → es.Pairwise fun a b => Text.bytes a.name < Text.bytes b.name := by
  constructor
  · intro spec e he
    obtain ⟨dir, hd⟩ := Spec.mem_parse he
    exact ⟨hd.placed, hd.defaults, fun _ => congrArg Reply.flag (accepts_of_placed hd.placed)⟩
  · intro f hf
    have hn : Named f.entries := Named.kept.fromSpecs Named.empty hf
    refine ⟨hn, fun dir es h => ?_⟩
    have hb : ∀ b ∈ f.entries.bindings, b.1 ≠ Path.root → b.2.name = Path.baseName b.1 := fun b hb hk =>
      hn b.1 b.2 (Catalog.get?_eq_some_iff.mpr hb) hk
    exact (children_pairwise f.entries.ascending hb (list_result_eq_ok h)).imp Text.bytes_lt_of_lt

theorem parse_placed_and_fromSpecs_named_unsorted :
    (∃ e ∈ Spec.parse "/ a (x]/../b) [c, d\\e]", e.path = "/b)/c" ∧ e.Placed) ∧
    ∃ es, ((ofSpecs ["/a [c, b]"]).list "/a").result = .ok es ∧ es.map (·.name) = ["b", "c"] ∧
      es.Pairwise fun a b => Text.bytes a.name < Text.bytes b.name := by
  constructor
  · have hm : { Entry.file "c" with path := "/b)/c" } ∈ Spec.parse "/ a (x]/../b) [c, d\\e]" := by decide
    exact ⟨_, hm, rfl, (parse_placed_and_fromSpecs_named.1 _ _ hm).1⟩
  · have hl : ((ofSpecs ["/a [c, b]"]).list "/a").result = .ok _ := rfl
    exact ⟨_, hl, by decide, (parse_placed_and_fromSpecs_named.2 _ (fromSpecs_ofSpecs _)).2 _ _ hl⟩

theorem ancestor_mem_of_fromSpecs {f : Fixture} (hf : FromSpecs f) {key path : String} (hk : key ∈ f.paths)
    (ha : Path.IsAncestor path key) : path ∈ f.paths := by
  have hr : Rooted f.entries := Rooted.kept.fromSpecs Rooted.empty hf
  obtain ⟨below, -, hc⟩ := ha.above
  have hm := hr.ofComponents_mem hk ⟨below, hc.symm⟩
  rwa [← Path.normalize_eq, ha.normal] at hm

/-- No entry is declared before the place that it stands in, and whatever specs have led to, all places above a
stored one are stored. So it is in a session after every step, if the caller never puts in entries of its own. -/
theorem parse_parents_and_fromSpecs_ancestors :
    (∀ spec before e after, Spec.parse spec = before ++ e :: after →
      parent e.path = Path.root ∨ ∃ e' ∈ before, e'.path = parent e.path) ∧
    (∀ f, FromSpecs f → ∀ key ∈ f.paths, ∀ path, Path.IsAncestor path key → path ∈ f.paths) ∧
    ∀ (o : Origin) f events, o.build = .ok (f, events) → ∀ steps : List Step, (∀ st ∈ steps, st.isRaw = false) →
      ∀ e ∈ (Session.start f).run steps, ∀ key ∈ e.session.fixture.paths, ∀ path, Path.IsAncestor path key →
        path ∈ e.session.fixture.paths := by
  refine ⟨fun spec before e after h => ?_, fun f hf key hk path => ancestor_mem_of_fromSpecs hf hk,
    fun o f events ho steps hsteps e he key hk path => ?_⟩
  · have hp := Spec.parentsFirst_parse [] spec
    rw [h] at hp
    rcases hp.of_append with hr | hk | hb
    · exact Or.inl hr
    · exact absurd hk List.not_mem_nil
    · exact Or.inr hb
  · have hs : e.session.FromSpecs := (Session.FromSpecs.start (.build ho)).run hsteps e he
    exact ancestor_mem_of_fromSpecs hs.fixture hk

theorem parse_parents_and_fromSpecs_ancestors_of_child :
    ("/a/b/c" ∈ (ofSpecs ["/a/b [c]"]).paths ∧ "/a" ∈ (ofSpecs ["/a/b [c]"]).paths) ∧
    ∃ e ∈ (Session.start (ofSpecs [])).run [.save, .addSpecs ["/a/b [c]"], .swap 0, .swap 0],
      "/a/b/c" ∈ e.session.fixture.paths ∧ "/a" ∈ e.session.fixture.paths := by
  have ha : Path.IsAncestor "/a" "/a/b/c" := ⟨by decide, [['b'], ['c']], by decide, by decide⟩
  obtain ⟨-, hstored, hrun⟩ := parse_parents_and_fromSpecs_ancestors
  constructor
  · have hc : "/a/b/c" ∈ (ofSpecs ["/a/b [c]"]).paths := by decide
    exact ⟨hc, hstored _ (fromSpecs_ofSpecs _) _ hc _ ha⟩
  · obtain ⟨e, he, hc⟩ : ∃ e ∈ (Session.start (ofSpecs [])).run [.save, .addSpecs ["/a/b [c]"], .swap 0, .swap 0],
        "/a/b/c" ∈ e.session.fixture.paths := by decide
    exact ⟨e, he, hc, hrun (.specs [] .unset) _ _ rfl _ (by decide) e he _ hc _ ha⟩

end Fixture
end FileFixture
