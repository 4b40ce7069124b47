import FileFixture.Proofs.Fixture.Change
import FileFixture.Proofs.Fixture.Inquiry
import Mathlib.Data.List.DropRight
import Mathlib.Data.List.Induction

/-!
Settings and memory over a whole session. Each setting is what the options that spoke of it last have made it, where
a sink speaks of logging as well. The memory holds what the steps since it was last cleared have left while the
logger delivered to it, in the order of the steps.
-/
namespace FileFixture

/-- Whether the options turn logging on or off: as they say, and on where they say nothing but bring a sink. -/
def Options.enables? (o : Options) : Option Bool :=
  match o.logging, o.sink with
  | some enabled, _ => some enabled
  | none, some _ => some true
  | none, none => none

/-- The options that a fixture is built with, if it is built from specs. -/
def Origin.options? : Origin → Option Options
  | .empty _ => none
  | .specs _ options => some options
  | .settings s => some s.options
  | .json text => (Settings.ofJson text).toOption.map Settings.options

namespace Step

def options? : Step → Option Options
  | .apply o => some o
  | _ => none

/-- A step that changes a setting other than by options, or that takes up another fixture. -/
def bypassesOptions : Step → Bool
  | .setAbsPrefix _ | .setAbsError _ | .setLogger _ | .setLogging _ | .swap _ => true
  | _ => false

def isClear : Step → Bool
  | .clearRecords => true
  | _ => false

/-- The records that a step leaves, whoever may receive them. -/
def leaves (f : Fixture) : Step → List Record
  | .query q => (f.ask q).2
  | _ => []

end Step

theorem getLast?_filterMap_concat {α β : Type} (g : α → Option β) (as : List α) (a : α) :
    ((as ++ [a]).filterMap g).getLast? = (g a).or (as.filterMap g).getLast? := by
  rw [List.filterMap_append]
  cases h : g a with
  | none => simp [h]
  | some b => simp [h]

namespace Fixture

/-- What options leave as it was, and what they do not. -/
theorem apply_eq (f : Fixture) (o : Options) :
    f.apply o =
      { entries := f.entries
        absPrefix := o.absPrefix.getD f.absPrefix
        absError := o.absError.or f.absError
        logger := ⟨o.enables?.getD f.logger.enabled, o.sink.getD f.logger.sink⟩ } := by
  obtain ⟨logging, sink, absPrefix, absError⟩ := o
  cases logging <;> cases sink <;> cases absPrefix <;> cases absError <;> rfl

/-- The settings are those that some options, applied one after the other, have left. -/
structure SetBy (f : Fixture) (os : List Options) : Prop where
  enabled : f.logger.enabled = (os.filterMap Options.enables?).getLast?.getD false
  sink : f.logger.sink = (os.filterMap Options.sink).getLast?.getD .trace
  absPrefix : f.absPrefix = (os.filterMap Options.absPrefix).getLast?.getD ""
  absError : f.absError = (os.filterMap Options.absError).getLast?

namespace SetBy

variable {f : Fixture} {os : List Options}

theorem empty : Fixture.empty.SetBy [] := ⟨rfl, rfl, rfl, rfl⟩

theorem apply (h : f.SetBy os) (o : Options) : (f.apply o).SetBy (os ++ [o]) := by
  rw [apply_eq]
  constructor
  · rw [getLast?_filterMap_concat, Option.getD_or, ← h.enabled]
  · rw [getLast?_filterMap_concat, Option.getD_or, ← h.sink]
  · rw [getLast?_filterMap_concat, Option.getD_or, ← h.absPrefix]
  · rw [getLast?_filterMap_concat, ← h.absError]

theorem extend (h : f.SetBy os) (es : List Entry) : (f.extend es).SetBy os := by
  rw [extend_eq]
  exact ⟨h.enabled, h.sink, h.absPrefix, h.absError⟩

theorem addSpecs (h : f.SetBy os) (specs : List String) : (f.addSpecs specs).SetBy os := by
  rw [addSpecs_eq_extend]
  exact h.extend _

theorem insert (h : f.SetBy os) (e : Entry) : (f.insert e).SetBy os := h.extend [e]

theorem configure (h : f.SetBy os) (path : String) (accesses : List Access) :
    (f.configure path accesses).2.SetBy os := by
  rw [configure_eq]
  exact ⟨h.enabled, h.sink, h.absPrefix, h.absError⟩

theorem build (specs : List String) (o : Options) : (build specs o).SetBy [o] := (empty.apply o).addSpecs specs

theorem origin {o : Origin} {given : Options} (hgiven : o.options? = some given) {events : List Event}
    (h : o.build = .ok (f, events)) : f.SetBy [given] := by
  cases o with
  | empty logger => cases hgiven
  | specs texts options =>
    cases hgiven
    cases h
    exact build texts given
  | settings s =>
    cases hgiven
    cases h
    exact build s.specs s.options
  | json text =>
    cases hs : Settings.ofJson text with
    | error fault =>
      rw [Origin.build, hs] at h
      cases h
    | ok s =>
      rw [Origin.build, hs] at h
      rw [Origin.options?, hs] at hgiven
      cases hgiven
      cases h
      exact build s.specs s.options

/-- A step changes the settings by its options alone. -/
theorem step {s : Session} (h : s.fixture.SetBy os) {st : Step} (hst : st.bypassesOptions = false) :
    (s.step st).session.fixture.SetBy (os ++ st.options?.toList) := by
  cases st with
  | setAbsPrefix | setAbsError | setLogger | setLogging | swap => cases hst
  | apply o => exact h.apply o
  | addSpecs specs => exact (List.append_nil os).symm ▸ h.addSpecs specs
  | configure path accesses => exact (List.append_nil os).symm ▸ h.configure path accesses
  | insert e => exact (List.append_nil os).symm ▸ h.insert e
  | extend es => exact (List.append_nil os).symm ▸ h.extend es
  | _ => exact (List.append_nil os).symm ▸ h

end SetBy
end Fixture

/-- A step of a run, and the fixture that it found. -/
structure Moment where
  fixture : Fixture
  step : Step

namespace Session

/-- The session after some steps. -/
def after (s : Session) (steps : List Step) : Session := steps.foldl (fun s st => (s.step st).session) s

/-- The moments of the steps, one after the other. -/
def moments (s : Session) : List Step → List Moment
  | [] => []
  | st :: rest => ⟨s.fixture, st⟩ :: (s.step st).session.moments rest

variable {s : Session} {os : List Options} {steps : List Step}

theorem after_concat (s : Session) (steps : List Step) (st : Step) :
    s.after (steps ++ [st]) = ((s.after steps).step st).session := List.foldl_concat _ _ _ _

theorem moments_concat (s : Session) (steps : List Step) (st : Step) :
    s.moments (steps ++ [st]) = s.moments steps ++ [⟨(s.after steps).fixture, st⟩] := by
  induction steps generalizing s with
  | nil => rfl
  | cons a steps ih =>
    rw [List.cons_append, moments, ih]
    rfl

theorem setBy_after (h : s.fixture.SetBy os) (hsteps : ∀ st ∈ steps, st.bypassesOptions = false) :
    (s.after steps).fixture.SetBy (os ++ steps.filterMap Step.options?) := by
  induction steps generalizing s os with
  | nil => exact (List.append_nil os).symm ▸ h
  | cons st steps ih =>
    obtain ⟨hst, hsteps⟩ := List.forall_mem_cons.mp hsteps
    have hos : os ++ (st :: steps).filterMap Step.options? =
        os ++ st.options?.toList ++ steps.filterMap Step.options? := by
      rw [List.append_assoc]
      cases st <;> rfl
    rw [hos]
    exact ih (h.step hst) hsteps

/-- A step clears the memory, or it adds what the logger delivers of its records. -/
theorem memory_step (s : Session) (st : Step) :
    (s.step st).session.memory =
      if st.isClear then [] else s.memory ++ s.fixture.logger.delivered .memory (st.leaves s.fixture) := by
  have hnil : s.memory = s.memory ++ s.fixture.logger.delivered .memory [] := by
    rw [Logger.delivered, ite_self, List.append_nil]
  cases st with
  | clearRecords => rfl
  | query q => rfl
  | swap index =>
    rw [step]
    cases s.saved[index]? <;> exact hnil
  | _ => exact hnil

/-- The memory of a session that started with none: what was delivered since it was last cleared. -/
theorem memory_after (f : Fixture) (steps : List Step) :
    ((start f).after steps).memory =
      (((start f).moments steps).rtakeWhile fun m => !m.step.isClear).flatMap fun m =>
        m.fixture.logger.delivered .memory (m.step.leaves m.fixture) := by
  induction steps using List.reverseRecOn with
  | nil => rfl
  | append_singleton steps st ih =>
    rw [after_concat, moments_concat, memory_step, List.rtakeWhile_concat]
    cases st.isClear with
    | true => rfl
    | false =>
      rw [Bool.not_false, if_pos rfl, List.flatMap_append, ← ih, List.flatMap_singleton]
      rfl

/-- At every moment of a session that began with specs, the settings are what the options so far have left, the
options have changed no entry, and the memory holds, of what the steps since it was last cleared have left, that
which came while logging was on and the memory its destination. The queries of a session stand for all queries,
whoever visits. -/
theorem after_setBy_and_memory {o : Origin} {given : Options} (hgiven : o.options? = some given) {f : Fixture}
    {events : List Event} (h : o.build = .ok (f, events)) {steps : List Step}
    (hsteps : ∀ st ∈ steps, st.bypassesOptions = false) :
    let s := (start f).after steps
    s.fixture.SetBy (given :: steps.filterMap Step.options?) ∧
    (∀ (f : Fixture) (o : Options), (f.apply o).entries = f.entries ∧
      (f.absError.isSome = true → (f.apply o).absError.isSome = true)) ∧
    s.memory = (((start f).moments steps).rtakeWhile fun m => !m.step.isClear).flatMap (fun m =>
      if m.fixture.logger.enabled = true ∧ m.fixture.logger.sink = .memory then m.step.leaves m.fixture else []) ∧
    ∀ (f : Fixture) {σ : Type} (q : Inquiry σ), ∃ q' : Query, (Step.query q').leaves f = (f.inquire q).records ∧
      f.inquire q'.inquiry = f.inquire q ∧ f.inquiryVisits q'.inquiry = f.inquiryVisits q := by
  intro s
  refine ⟨setBy_after (.origin hgiven h) hsteps, fun f o => ?_, memory_after f steps, fun f σ q => ?_⟩
  · rw [Fixture.apply_eq]
    refine ⟨rfl, fun herror => ?_⟩
    rw [Option.isSome_or, herror, Bool.or_true]
  · obtain ⟨q', hq', hvisits⟩ := f.exists_query q
    have hleaves : (Step.query q').leaves f = (f.inquire q'.inquiry).records := by
      cases q' <;> rfl
    exact ⟨q', by rw [hleaves, hq'], hq', hvisits⟩

/-- Bringing the sink a second time turns logging on again. What came before the memory was cleared, and what came
while logging was off, is not in it. -/
theorem after_setBy_and_memory_second_sink :
    let steps : List Step := [.query (.stat "/b"), .clearRecords, .query (.stat "/c"),
      .apply { Options.unset with logging := some false }, .query (.stat "/d"),
      .apply { Options.unset with sink := some .memory, absError := some "no" }, .query (.abs "e"),
      .apply { Options.unset with absPrefix := some "/w" }]
    let s := (start (.build ["/a"] { Options.unset with sink := some .memory })).after steps
    s.fixture.logger.enabled = true ∧ s.fixture.absPrefix = "/w" ∧ s.fixture.absError = some "no" ∧
      s.memory.map (·.path) = ["/c", "e"] := by
  intro steps s
  obtain ⟨hset, -, hmemory, -⟩ := after_setBy_and_memory
    (o := .specs ["/a"] { Options.unset with sink := some .memory }) rfl rfl (show ∀ st ∈ steps, _ from by decide)
  refine ⟨hset.enabled, hset.absPrefix, hset.absError, ?_⟩
  rw [hmemory]
  decide

end Session
end FileFixture
