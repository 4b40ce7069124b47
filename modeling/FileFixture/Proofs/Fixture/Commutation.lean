import FileFixture.Proofs.Fixture.Construction
import FileFixture.Proofs.Session.Muted

/-!
The order of declarations. Two entries may be put in one after the other or the other way round if they do not claim
the same path, or are the same. So entries that agree on each path make the same fixture in any order, and so do specs
whose entries agree, however often they declare a place that they share.
-/
namespace FileFixture

theorem Catalog.insert_comm {α : Type} (c : Catalog α) {key key' : String} (h : key ≠ key') (a b : α) :
    (c.insert key a).insert key' b = (c.insert key' b).insert key a := by
  refine ext_get? fun k => ?_
  rw [get?_insert, get?_insert, get?_insert, get?_insert]
  by_cases hk : key = k
  · have hk' : key' ≠ k := fun he => h (hk.trans he.symm)
    rw [if_neg hk', if_pos hk, if_pos hk]
  · rw [if_neg hk, if_neg hk]

/-- At one path there is one entry. -/
def Entry.Agree (es : List Entry) : Prop := ∀ a ∈ es, ∀ b ∈ es, a.path = b.path → a = b

instance (es : List Entry) : Decidable (Entry.Agree es) :=
  inferInstanceAs (Decidable (∀ a ∈ es, ∀ b ∈ es, a.path = b.path → a = b))

namespace Fixture

theorem insert_comm (f : Fixture) {a b : Entry} (h : a.path = b.path → a = b) :
    (f.insert a).insert b = (f.insert b).insert a := by
  by_cases hp : a.path = b.path
  · rw [h hp]
  · cases ha : accepts a with
    | false => rw [f.insert_of_refused ha, (f.insert b).insert_of_refused ha]
    | true =>
      cases hb : accepts b with
      | false => rw [f.insert_of_refused hb, (f.insert a).insert_of_refused hb]
      | true => simp only [insert, ha, hb, if_true, f.entries.insert_comm hp a b]

/-- Each exchange of neighbours in the list exchanges two entries that agree. -/
theorem extend_perm (f : Fixture) {as bs : List Entry} (hperm : as.Perm bs) (h : Entry.Agree as) :
    f.extend as = f.extend bs :=
  hperm.foldl_eq' (fun a ha b hb g => g.insert_comm (h a ha b hb)) f

theorem addSpecs_perm (f : Fixture) {specs specs' : List String} (hperm : specs.Perm specs')
    (h : Entry.Agree (Spec.parseAll specs)) : f.addSpecs specs = f.addSpecs specs' := by
  rw [addSpecs_eq_extend, addSpecs_eq_extend]
  exact f.extend_perm (hperm.flatMap_right Spec.parse) h

theorem extend_same {f g : Fixture} (h : f.same g = true) (es : List Entry) :
    (f.extend es).same (g.extend es) = true := by
  rw [same_iff_muted, ← extend_muted, ← extend_muted, same_iff_muted.mp h]

/-- Fixtures that are equal but for their loggers are asked alike, whatever the question and whoever visits. -/
theorem reply_of_same {f g : Fixture} (h : f.same g = true) {st : Step} (hst : st.looksAtLog = false) :
    ((Session.start f).step st).reply = ((Session.start g).step st).reply := by
  have hsame : (Session.start f).Same (Session.start g) := ⟨h, .nil⟩
  exact (Session.step_same hsame (.refl hst)).reply

/-- Entries that agree on each path may come in any order, and so may specs whose entries agree. -/
theorem extend_perm_and_ofSpecs_perm :
    (∀ (f g : Fixture) (as bs : List Entry), f.same g = true → as.Perm bs → Entry.Agree as →
      (f.extend as).same (g.extend bs) = true ∧
        (∀ path, AlikeAt (f.extend as) (g.extend bs) path) ∧
        ∀ st : Step, st.looksAtLog = false →
          ((Session.start (f.extend as)).step st).reply = ((Session.start (g.extend bs)).step st).reply) ∧
    ∀ specs specs' : List String, specs.Perm specs' → Entry.Agree (Spec.parseAll specs) →
      ofSpecs specs = ofSpecs specs' := by
  refine ⟨fun f g as bs hfg hperm h => ?_, fun specs specs' hperm h => addSpecs_perm _ hperm h⟩
  have hsame : (f.extend as).same (g.extend bs) = true := by
    rw [f.extend_perm hperm h]
    exact extend_same hfg bs
  exact ⟨hsame, alikeAt_of_same hsame, fun st hst => reply_of_same hsame hst⟩

/-- The directory `/d` and its file `x` are declared by more than one of the specs, and each time alike. -/
theorem extend_perm_and_ofSpecs_perm_shared :
    let specs := ["/d [x, y (err=no)]", "d/z", "/d/z/.. [x]"]
    let entries := Spec.parseAll specs
    let f := (ofSpecs ["/a"]).apply { Options.unset with sink := some .memory }
    Entry.Agree entries ∧
      ofSpecs specs = ofSpecs ["/d/z/.. [x]", "d/z", "/d [x, y (err=no)]"] ∧
      (ofSpecs specs).paths = ["/", "/d", "/d/x", "/d/y", "/d/z"] ∧
      (f.extend entries).same ((ofSpecs ["/a"]).extend entries.reverse) = true := by
  intro specs entries f
  have h : Entry.Agree entries := by decide
  have hperm : specs.Perm ["/d/z/.. [x]", "d/z", "/d [x, y (err=no)]"] := List.reverse_perm specs |>.symm
  have hf : f.same (ofSpecs ["/a"]) = true := by decide
  exact ⟨h, extend_perm_and_ofSpecs_perm.2 specs _ hperm h, by decide,
    (extend_perm_and_ofSpecs_perm.1 f _ entries _ hf entries.reverse_perm.symm h).1⟩

end Fixture
end FileFixture
