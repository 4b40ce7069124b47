import FileFixture.Proofs.Fixture.Isolation
import Mathlib.Data.List.Forall2

/-!
Logging is not seen in any answer. A session that has been muted, with all loggers disabled and the steps saying
nothing about them, answers every step as the session itself does and stays its muted form. So two sessions whose
fixtures are equal but for their loggers cannot be told apart by anything but a look at the logger or its records.
-/
namespace FileFixture

/-- The fixture without its logger. -/
def Fixture.muted (f : Fixture) : Fixture := { f with logger := .disabled }

/-- The options without what they say about logging. -/
def Options.muted (o : Options) : Options := { o with logging := none, sink := none }

namespace Fixture

theorem same_iff {f g : Fixture} :
    f.same g = true ↔ f.entries = g.entries ∧ f.absPrefix = g.absPrefix ∧ f.absError = g.absError := by
  simp [same, and_assoc]

theorem same_iff_muted {f g : Fixture} : f.same g = true ↔ f.muted = g.muted := by
  rw [same_iff]
  obtain ⟨entries, absPrefix, absError, logger⟩ := f
  obtain ⟨entries', absPrefix', absError', logger'⟩ := g
  simp [muted]

variable (f : Fixture)

theorem get?_muted (path : String) : f.muted.get? path = f.get? path := rfl

theorem insert_muted (e : Entry) : f.muted.insert e = (f.insert e).muted := by
  rw [insert_eq, insert_eq]
  rfl

theorem extend_muted (es : List Entry) : f.muted.extend es = (f.extend es).muted := by
  rw [extend_eq, extend_eq]
  rfl

theorem addSpecs_muted (specs : List String) : f.muted.addSpecs specs = (f.addSpecs specs).muted := by
  rw [addSpecs_eq_extend, addSpecs_eq_extend, extend_muted]

theorem configure_muted (path : String) (accesses : List Access) :
    f.muted.configure path accesses = ((f.configure path accesses).1, (f.configure path accesses).2.muted) := by
  have hshown : (f.muted.configure path accesses).1 = (f.configure path accesses).1 := by
    rw [configure, configure, get?_muted]
    cases f.get? path <;> rfl
  have hfixture : (f.muted.configure path accesses).2 = (f.configure path accesses).2.muted := by
    rw [configure_eq, configure_eq]
    rfl
  exact Prod.ext hshown hfixture

theorem apply_muted (o : Options) : f.muted.apply o.muted = (f.apply o).muted := by
  obtain ⟨logging, sink, absPrefix, absError⟩ := o
  cases logging <;> cases sink <;> cases absPrefix <;> cases absError <;> rfl

/-- Whatever is asked, the answer is found without the logger. -/
theorem ask_muted (q : Query) : f.muted.ask q = f.ask q := by
  cases q <;> rfl

theorem alikeAt_of_same {f g : Fixture} (h : f.same g = true) (path : String) : AlikeAt f g path := by
  have hentries := (same_iff.mp h).1
  exact AgreeWithin.alikeAt fun key _ => congrArg (Catalog.get? · key) hentries

end Fixture

namespace Step

def muted : Step → Step
  | .apply o => .apply o.muted
  | .setLogger _ => .setLogger .disabled
  | .setLogging _ => .setLogging false
  | st => st

/-- A step that looks at the logger or at the records it has delivered. -/
def looksAtLog : Step → Bool
  | .logger | .records | .recordsFor _ => true
  | _ => false

/-- The same step, if it is no look at the log; options and setters may say different things about logging. -/
inductive Alike : Step → Step → Prop
  | refl {st : Step} : st.looksAtLog = false → Alike st st
  | apply {o o' : Options} : o.absPrefix = o'.absPrefix → o.absError = o'.absError → Alike (.apply o) (.apply o')
  | setLogger (l l' : Logger) : Alike (.setLogger l) (.setLogger l')
  | setLogging (enabled enabled' : Bool) : Alike (.setLogging enabled) (.setLogging enabled')

namespace Alike

variable {a b : Step}

theorem muted_eq (h : Alike a b) : a.muted = b.muted := by
  cases h with
  | refl => rfl
  | apply hprefix herror => simp only [muted, Options.muted, hprefix, herror]
  | setLogger => rfl
  | setLogging => rfl

theorem looksAtLog_eq_false (h : Alike a b) : a.looksAtLog = false ∧ b.looksAtLog = false := by
  cases h with
  | refl h => exact ⟨h, h⟩
  | apply | setLogger | setLogging => exact ⟨rfl, rfl⟩

end Alike
end Step

namespace Session

def muted (s : Session) : Session := ⟨s.fixture.muted, s.saved.map Fixture.muted, []⟩

/-- Equal but for the loggers and for the records that they have delivered. -/
structure Same (s t : Session) : Prop where
  fixture : s.fixture.same t.fixture = true
  saved : List.Forall₂ (fun f g => f.same g = true) s.saved t.saved

theorem same_iff_muted {s t : Session} : s.Same t ↔ s.muted = t.muted := by
  have hsaved : List.Forall₂ (fun f g => f.same g = true) s.saved t.saved ↔
      s.saved.map Fixture.muted = t.saved.map Fixture.muted := by
    rw [← List.forall₂_eq_eq_eq, List.forall₂_map_left_iff, List.forall₂_map_right_iff]
    simp only [Fixture.same_iff_muted]
  constructor
  · rintro ⟨hf, hs⟩
    rw [muted, muted, Fixture.same_iff_muted.mp hf, hsaved.mp hs]
  · intro h
    exact ⟨Fixture.same_iff_muted.mpr (congrArg Session.fixture h), hsaved.mpr (congrArg Session.saved h)⟩

variable (s : Session)

theorem getElem?_saved_muted (index : Nat) : s.muted.saved[index]? = s.saved[index]?.map Fixture.muted :=
  List.getElem?_map

/-- Muting before a step comes to the same as muting after it. -/
theorem step_muted (st : Step) : (s.muted.step st.muted).session = (s.step st).session.muted := by
  cases st with
  | query q => rfl
  | addSpecs specs => exact congrArg (Session.mk · _ _) (s.fixture.addSpecs_muted specs)
  | apply o => exact congrArg (Session.mk · _ _) (s.fixture.apply_muted o)
  | configure path accesses => exact congrArg (Session.mk ·.2 _ _) (s.fixture.configure_muted path accesses)
  | insert e => exact congrArg (Session.mk · _ _) (s.fixture.insert_muted e)
  | extend es => exact congrArg (Session.mk · _ _) (s.fixture.extend_muted es)
  | save =>
    have hs : s.saved.map Fixture.muted ++ [s.fixture.muted] = (s.saved ++ [s.fixture]).map Fixture.muted := by
      rw [List.map_append]
      rfl
    exact congrArg (Session.mk _ · _) hs
  | swap index =>
    change (s.muted.step (.swap index)).session = _
    rw [step, step, getElem?_saved_muted]
    cases s.saved[index]? with
    | none => rfl
    | some f => exact congrArg (Session.mk _ · _) List.map_set.symm
  | _ => rfl

theorem reply_muted {st : Step} (h : st.looksAtLog = false) : (s.muted.step st.muted).reply = (s.step st).reply := by
  cases st with
  | logger | records | recordsFor => cases h
  | query q => exact congrArg Prod.fst (s.fixture.ask_muted q)
  | addSpecs specs => exact congrArg (Reply.count ·.size) (s.fixture.addSpecs_muted specs)
  | configure path accesses => exact congrArg (Reply.shown ·.1) (s.fixture.configure_muted path accesses)
  | extend es => exact congrArg (Reply.count ·.size) (s.fixture.extend_muted es)
  | save => exact congrArg Reply.count (List.length_map _)
  | swap index =>
    change (s.muted.step (.swap index)).reply = _
    rw [step, step, getElem?_saved_muted]
    cases s.saved[index]? <;> rfl
  | equals index =>
    change (s.muted.step (.equals index)).reply = _
    rw [step, step, getElem?_saved_muted, answer, answer, Option.any_map]
    rfl
  | _ => rfl

/-- What two effects have in common if they cannot be told apart: the answer, and all answers that a query of the
fixture may get from then on, whoever visits. -/
structure AlikeEffects (a b : Effect) : Prop where
  reply : a.reply = b.reply
  same : a.session.Same b.session
  queries : ∀ path, Fixture.AlikeAt a.session.fixture b.session.fixture path

variable {s} {t : Session}

theorem step_same (h : s.Same t) {a b : Step} (hab : a.Alike b) : AlikeEffects (s.step a) (t.step b) := by
  have hmuted : s.muted.step a.muted = t.muted.step b.muted := by
    rw [same_iff_muted.mp h, hab.muted_eq]
  have hsame : (s.step a).session.Same (t.step b).session := by
    rw [same_iff_muted, ← step_muted, ← step_muted, hmuted]
  constructor
  · rw [← s.reply_muted hab.looksAtLog_eq_false.1, ← t.reply_muted hab.looksAtLog_eq_false.2, hmuted]
  · exact hsame
  · exact Fixture.alikeAt_of_same hsame.fixture

/-- Sessions that are equal but for their logging answer alike steps alike, and stay equal but for their logging. -/
theorem run_same (h : s.Same t) {as bs : List Step} (hsteps : List.Forall₂ Step.Alike as bs) :
    (∀ path, Fixture.AlikeAt s.fixture t.fixture path) ∧ List.Forall₂ AlikeEffects (s.run as) (t.run bs) := by
  refine ⟨Fixture.alikeAt_of_same h.fixture, ?_⟩
  induction hsteps generalizing s t with
  | nil => exact .nil
  | cons hab _ ih =>
    have he := step_same h hab
    exact .cons he (ih he.same)

/-- One session keeps records from the start, the other switches them on for the trace and off again. -/
theorem run_same_other_sink :
    let s := start (.build ["/a [b (err=no)]"] { Options.unset with sink := some .memory })
    let t := start (.ofSpecs ["/a [b (err=no)]"])
    let as : List Step := [.query (.list "/a"), .apply { Options.unset with absPrefix := some "/w" }, .save,
      .addSpecs ["/a/c"], .setLogging true, .query (.walk "/a"), .equals 0]
    let bs : List Step := [.query (.list "/a"),
      .apply { Options.unset with absPrefix := some "/w", sink := some .trace }, .save, .addSpecs ["/a/c"],
      .setLogging false, .query (.walk "/a"), .equals 0]
    List.Forall₂ AlikeEffects (s.run as) (t.run bs) ∧
      (s.run as).map (·.session.memory.length) = [1, 1, 1, 1, 1, 5, 5] ∧
      (t.run bs).map (·.session.memory.length) = [0, 0, 0, 0, 0, 0, 0] := by
  intro s t as bs
  have hsame : s.Same t := ⟨by decide, .nil⟩
  have hsteps : List.Forall₂ Step.Alike as bs :=
    .cons (.refl rfl) (.cons (.apply rfl rfl) (.cons (.refl rfl) (.cons (.refl rfl) (.cons (.setLogging true false)
      (.cons (.refl rfl) (.cons (.refl rfl) .nil))))))
  exact ⟨(run_same hsame hsteps).2, by decide, by decide⟩

end Session
end FileFixture
