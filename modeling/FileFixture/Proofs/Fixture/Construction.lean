import FileFixture.Proofs.Fixture.History
import FileFixture.Proofs.Fixture.Selection
import FileFixture.Proofs.Session.Memory
import FileFixture.Proofs.Settings.Reading

/-!
The ways to a fixture. Options change no entry and specs no setting, so it does not matter which come first; a text of
settings leads to the fixture of the settings. The last entry put at a path is the one that counts, and so the same
specs once more change nothing.
-/
namespace FileFixture

theorem Catalog.ext_get? {α : Type} {c d : Catalog α} (h : ∀ key, c.get? key = d.get? key) : c = d := by
  have hbindings := filter_bindings_congr (p := fun _ => true) fun key _ => h key
  rw [List.filter_true, List.filter_true] at hbindings
  exact ext hbindings

namespace Touch

theorem editsAt_puts (p : String) (es : List Entry) : editsAt p (es.map .put) = [] := by
  rw [editsAt, List.filterMap_map]
  exact List.filterMap_eq_nil_iff.mpr fun _ _ => rfl

/-- Each path has the entry that was last put there, or what was there before, and not by these. -/
theorem foldl_act_puts_twice (c : Catalog Entry) (es : List Entry) :
    (es.map Touch.put).foldl act ((es.map Touch.put).foldl act c) = (es.map Touch.put).foldl act c := by
  refine Catalog.ext_get? fun p => ?_
  rcases lastPut_or_forall (es.map Touch.put) p with ⟨e, after, hlast⟩ | hnone
  · rw [get?_foldl_act_of_lastPut hlast, get?_foldl_act_of_lastPut hlast]
  · rw [get?_foldl_act_of_edits hnone, editsAt_puts]
    exact Option.map_id'

end Touch

namespace Fixture

theorem extend_twice (f : Fixture) (es : List Entry) : (f.extend es).extend es = f.extend es := by
  rw [extend_eq (f.extend es), extend_eq f]
  dsimp only
  rw [Touch.foldl_act_puts_twice]

theorem extend_apply (f : Fixture) (o : Options) (es : List Entry) :
    (f.extend es).apply o = (f.apply o).extend es := by
  rw [apply_eq, apply_eq, extend_eq, extend_eq]

theorem addSpecs_apply (f : Fixture) (o : Options) (specs : List String) :
    (f.addSpecs specs).apply o = (f.apply o).addSpecs specs := by
  rw [addSpecs_eq_extend, addSpecs_eq_extend, extend_apply]

theorem addSpecs_append (f : Fixture) (a b : List String) : f.addSpecs (a ++ b) = (f.addSpecs a).addSpecs b :=
  List.foldl_append

theorem build_eq_addSpecs_apply (specs : List String) (o : Options) :
    build specs o = (empty.addSpecs specs).apply o := by
  rw [build, addSpecs_apply]

theorem ofJson_of_isText {s : Settings} (hspecs : ∀ spec ∈ s.specs, Settings.isBlankSpec spec = false)
    {ms : List (String × Json.Tree)} (hms : s.Describes ms) {text : String} (htext : Json.IsText (.object ms) text) :
    ofJson text = .ok (ofSettings s) := by
  rw [ofJson, Settings.ofJson_of_isText hms htext, Settings.validate_eq_ok hspecs]
  rfl

/-- All ways to a fixture agree: specs in one list or in two, options before the specs or after them, specs or the
entries that they declare, and settings or a text of them, if no spec of theirs is blank. -/
theorem constructions_agree (a b : List String) (o : Options) (s : Settings) :
    ofSpecs (a ++ b) = (ofSpecs a).addSpecs b ∧
    (build a o = (empty.apply o).addSpecs a ∧
      build a o = (empty.addSpecs a).apply o ∧
      build a o = (empty.apply o).extend (Spec.parseAll a)) ∧
    ((∀ spec ∈ s.specs, Settings.isBlankSpec spec = false) →
      (∀ ms text, s.Describes ms → Json.IsText (.object ms) text → ofJson text = .ok (ofSettings s)) ∧
      ofJson s.toJson.compact = .ok (ofSettings s) ∧ ofJson s.toJson.pretty = .ok (ofSettings s)) ∧
    ofSettings s = (ofSpecs s.specs).apply ⟨some s.logging, none, s.absPrefix, s.absError⟩ ∧
    ∀ f : Fixture, (f.addSpecs a).addSpecs a = f.addSpecs a := by
  refine ⟨addSpecs_append _ a b, ⟨rfl, build_eq_addSpecs_apply a o, addSpecs_eq_extend _ a⟩, fun hspecs => ?_,
    build_eq_addSpecs_apply s.specs s.options, fun f => ?_⟩
  · have hfields := Settings.tree_toJson s
    refine ⟨fun ms text hms htext => ofJson_of_isText hspecs hms htext, ?_, ?_⟩
    · exact ofJson_of_isText hspecs (Settings.describes_fields s) (hfields ▸ Json.isText_compact s.toJson)
    · exact ofJson_of_isText hspecs (Settings.describes_fields s) (hfields ▸ Json.isText_pretty s.toJson)
  · rw [addSpecs_eq_extend, addSpecs_eq_extend, extend_twice]

/-- The second spec puts another entry in the place of the one that the first has put there. -/
theorem constructions_agree_replaced :
    let s : Settings := ⟨["/a [b(err=no)]", "a[b]"], true, some "/w", none⟩
    (∀ spec ∈ s.specs, Settings.isBlankSpec spec = false) ∧ ofJson s.toJson.pretty = .ok (ofSettings s) ∧
      (ofSettings s).paths = ["/", "/a", "/a/b"] ∧ ((ofSettings s).get? "/a/b").map Entry.error = some none ∧
      (ofSettings s).logger.enabled = true := by
  intro s
  have hspecs : ∀ spec ∈ s.specs, Settings.isBlankSpec spec = false := by decide
  have hagree := constructions_agree s.specs [] .unset s
  exact ⟨hspecs, (hagree.2.2.1 hspecs).2.2, by decide, by decide, by decide⟩

end Fixture
end FileFixture
