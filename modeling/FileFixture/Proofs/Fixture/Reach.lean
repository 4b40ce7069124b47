import FileFixture.Proofs.Fixture.Change

/-!
The fixtures that specs lead to: one that was built from specs, settings or a text that holds them, and any
changes of it other than putting in entries of the caller's own. A property of the stored entries holds of all
of them if it holds of the root alone, and specs and edits keep it.
-/
namespace FileFixture

namespace Fixture

/-- A fixture with no entry in it but the root and those that specs have declared. -/
inductive FromSpecs : Fixture → Prop
  | build {o : Origin} {f : Fixture} {events : List Event} : o.build = .ok (f, events) → FromSpecs f
  | change {f : Fixture} {c : Change} : FromSpecs f → c.isRaw = false → FromSpecs (f.change c)

/-- A property of the stored entries that specs and edits keep. -/
structure Kept (P : Catalog Entry → Prop) : Prop where
  spec : ∀ c, P c → ∀ spec, P (((Spec.parse spec).map Touch.put).foldl Touch.act c)
  edit : ∀ c, P c → ∀ path d, P (Touch.act c (.edit path d))

namespace Kept

variable {P : Catalog Entry → Prop} {c : Catalog Entry}

theorem specs (k : Kept P) (h : P c) (specs : List String) :
    P (((Spec.parseAll specs).map Touch.put).foldl Touch.act c) := by
  induction specs generalizing c with
  | nil => exact h
  | cons spec specs ih =>
    rw [Spec.parseAll, List.flatMap_cons, List.map_append, List.foldl_append]
    exact ih (k.spec c h spec)

theorem edits (k : Kept P) (h : P c) (path : String) (ds : List Edit) :
    P ((ds.map (Touch.edit path)).foldl Touch.act c) := by
  induction ds generalizing c with
  | nil => exact h
  | cons d ds ih => exact ih (k.edit c h path d)

theorem change {f : Fixture} (k : Kept P) (h : P f.entries) {c : Change} (hc : c.isRaw = false) :
    P (f.change c).entries := by
  rw [entries_change]
  cases c with
  | insert | extend => cases hc
  | addSpecs specs => exact k.specs h specs
  | configure path accesses => exact k.edits h path _
  | apply | setLogger | setLogging | setAbsPrefix | setAbsError => exact h

theorem build {specs : List String} {o : Options} (k : Kept P) (h : P empty.entries) :
    P (build specs o).entries := by
  rw [Fixture.build, addSpecs_eq_extend, entries_extend, entries_apply]
  exact k.specs h specs

theorem origin {o : Origin} {f : Fixture} {events : List Event} (k : Kept P) (h : P empty.entries)
    (ho : o.build = .ok (f, events)) : P f.entries := by
  cases o with
  | empty logger =>
    cases ho
    exact h
  | specs texts options =>
    cases ho
    exact k.build h
  | settings s =>
    cases ho
    exact k.build h
  | json text =>
    cases hs : Settings.ofJson text with
    | error fault =>
      rw [Origin.build, hs] at ho
      cases ho
    | ok s =>
      rw [Origin.build, hs] at ho
      cases ho
      exact k.build h

/-- What specs and edits keep is true of every fixture that specs lead to. -/
theorem fromSpecs {f : Fixture} (k : Kept P) (h : P empty.entries) (hf : FromSpecs f) : P f.entries := by
  induction hf with
  | build ho => exact k.origin h ho
  | change _ hc ih => exact k.change ih hc

end Kept

theorem fromSpecs_ofSpecs (specs : List String) : FromSpecs (ofSpecs specs) :=
  .build (o := .specs specs .unset) rfl

end Fixture

/-- A step with which the caller puts in entries of its own. -/
def Step.isRaw : Step → Bool
  | .insert _ | .extend _ => true
  | _ => false

/-- The fixture at hand and those that were put aside are fixtures that specs have led to. -/
structure Session.FromSpecs (s : Session) : Prop where
  fixture : s.fixture.FromSpecs
  saved : ∀ f ∈ s.saved, f.FromSpecs

namespace Session.FromSpecs

variable {s : Session}

theorem start {f : Fixture} (h : f.FromSpecs) : (Session.start f).FromSpecs :=
  ⟨h, fun _ hg => absurd hg List.not_mem_nil⟩

theorem change (h : s.FromSpecs) {c : Change} (hc : c.isRaw = false) :
    (s.step c.step).session.FromSpecs := by
  rw [Session.step_change]
  exact ⟨.change h.fixture hc, h.saved⟩

theorem swap (h : s.FromSpecs) (index : Nat) : (s.step (.swap index)).session.FromSpecs := by
  cases hi : s.saved[index]? with
  | none =>
    have hs : (s.step (.swap index)).session = s := by simp only [Session.step, hi]; rfl
    rw [hs]
    exact h
  | some f =>
    have hs : (s.step (.swap index)).session =
        { s with fixture := f, saved := s.saved.set index s.fixture } := by simp only [Session.step, hi]
    rw [hs]
    refine ⟨h.saved f (List.mem_of_getElem? hi), fun g hg => ?_⟩
    rcases List.mem_or_eq_of_mem_set hg with hg | rfl
    · exact h.saved g hg
    · exact h.fixture

theorem step (h : s.FromSpecs) {st : Step} (hst : st.isRaw = false) : (s.step st).session.FromSpecs := by
  cases st with
  | insert | extend => cases hst
  | addSpecs specs => exact h.change (c := .addSpecs specs) rfl
  | apply options => exact h.change (c := .apply options) rfl
  | configure path accesses => exact h.change (c := .configure path accesses) rfl
  | setAbsPrefix start => exact h.change (c := .setAbsPrefix start) rfl
  | setAbsError message => exact h.change (c := .setAbsError message) rfl
  | setLogger l => exact h.change (c := .setLogger l) rfl
  | setLogging enabled => exact h.change (c := .setLogging enabled) rfl
  | swap index => exact h.swap index
  | save =>
    refine ⟨h.fixture, fun f hf => ?_⟩
    rcases List.mem_append.mp hf with hf | hf
    · exact h.saved f hf
    · rw [List.mem_singleton.mp hf]
      exact h.fixture
  | _ => exact ⟨h.fixture, h.saved⟩

/-- So it is after every step of a run. -/
theorem run (h : s.FromSpecs) {steps : List Step} (hsteps : ∀ st ∈ steps, st.isRaw = false) :
    ∀ e ∈ s.run steps, e.session.FromSpecs := by
  induction steps generalizing s with
  | nil => exact fun e he => absurd he List.not_mem_nil
  | cons st steps ih =>
    obtain ⟨hst, hsteps⟩ := List.forall_mem_cons.mp hsteps
    intro e he
    rcases List.mem_cons.mp he with rfl | he
    · exact h.step hst
    · exact ih (h.step hst) hsteps e he

end Session.FromSpecs
end FileFixture
