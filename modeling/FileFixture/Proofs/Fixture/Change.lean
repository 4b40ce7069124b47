import FileFixture.Session
import FileFixture.Proofs.Catalog

/-!
The calls that change a fixture, as data, and what each of them does to single paths. Whatever the call, its
effect on the stored entries is that of its touches, one after the other: an entry put at its path, or an edit
of the entry at a path. A touch of one path is not seen at any other.
-/
namespace FileFixture

inductive Change where
  | insert (e : Entry)
  | extend (es : List Entry)
  | addSpecs (specs : List String)
  | configure (path : String) (accesses : List Access)
  | apply (options : Options)
  | setLogger (l : Logger)
  | setLogging (enabled : Bool)
  | setAbsPrefix (start : String)
  | setAbsError (message : Option String)

namespace Change

/-- The step of a session that makes the change. -/
def step : Change → Step
  | .insert e => .insert e
  | .extend es => .extend es
  | .addSpecs specs => .addSpecs specs
  | .configure path accesses => .configure path accesses
  | .apply options => .apply options
  | .setLogger l => .setLogger l
  | .setLogging enabled => .setLogging enabled
  | .setAbsPrefix start => .setAbsPrefix start
  | .setAbsError message => .setAbsError message

/-- Entries that come from the caller and not from a spec. -/
def isRaw : Change → Bool
  | .insert _ | .extend _ => true
  | _ => false

end Change

namespace Fixture

def change (f : Fixture) : Change → Fixture
  | .insert e => f.insert e
  | .extend es => f.extend es
  | .addSpecs specs => f.addSpecs specs
  | .configure path accesses => (f.configure path accesses).2
  | .apply options => f.apply options
  | .setLogger l => f.setLogger l
  | .setLogging enabled => f.setLogging enabled
  | .setAbsPrefix start => f.setAbsPrefix start
  | .setAbsError message => f.setAbsError message

/-- Changes one after the other. -/
def run (f : Fixture) (cs : List Change) : Fixture := cs.foldl change f

end Fixture

/-- The step of a change changes the fixture of the session, and nothing else in it. -/
theorem Session.step_change (s : Session) (c : Change) :
    (s.step c.step).session = { s with fixture := s.fixture.change c } := by
  cases c <;> rfl

/-- What a change does at one path. -/
inductive Touch where
  | put (e : Entry)
  | edit (path : String) (d : Edit)

def Access.edit? : Access → Option Edit
  | .edit d => some d
  | _ => none

def Change.touches : Change → List Touch
  | .insert e => [.put e]
  | .extend es => es.map .put
  | .addSpecs specs => (Spec.parseAll specs).map .put
  | .configure path accesses => (accesses.filterMap Access.edit?).map (.edit path)
  | _ => []

/-- All touches of some changes, the oldest first. -/
def history (cs : List Change) : List Touch := cs.flatMap Change.touches

namespace Touch

def path : Touch → String
  | .put e => e.path
  | .edit path _ => path

/-- The effect on the stored entries. -/
def act (c : Catalog Entry) : Touch → Catalog Entry
  | .put e => if Fixture.accepts e then c.insert e.path e else c
  | .edit path d => c.modify path (·.edit d)

variable {c : Catalog Entry}

theorem get?_act_of_ne {t : Touch} {p : String} (h : t.path ≠ p) : (act c t).get? p = c.get? p := by
  cases t with
  | put e =>
    rw [act]
    split
    case isTrue => exact (Catalog.get?_insert c e.path p e).trans (if_neg h)
    case isFalse => rfl
  | edit path d => exact (Catalog.get?_modify c path p _).trans (if_neg (Ne.symm h))

theorem get?_foldl_act_of_ne {ts : List Touch} {p : String} (h : ∀ t ∈ ts, t.path ≠ p) :
    (ts.foldl act c).get? p = c.get? p := by
  induction ts generalizing c with
  | nil => rfl
  | cons t ts ih =>
    obtain ⟨ht, hts⟩ := List.forall_mem_cons.mp h
    rw [List.foldl_cons, ih hts, get?_act_of_ne ht]

theorem mem_keys_act {t : Touch} {p : String} :
    p ∈ (act c t).keys ↔ p ∈ c.keys ∨ ∃ e, t = .put e ∧ Fixture.accepts e = true ∧ e.path = p := by
  cases t with
  | put e =>
    rw [act]
    split
    case isTrue h =>
      rw [Catalog.mem_keys_insert, or_comm, eq_comm]
      simp [h]
    case isFalse h => simp [h]
  | edit path d => simp [act]

/-- The paths after some touches: those from before, and those of the entries that were accepted. -/
theorem mem_keys_foldl_act {ts : List Touch} {p : String} :
    p ∈ (ts.foldl act c).keys ↔
      p ∈ c.keys ∨ ∃ e, .put e ∈ ts ∧ Fixture.accepts e = true ∧ e.path = p := by
  induction ts generalizing c with
  | nil => simp
  | cons t ts ih =>
    rw [List.foldl_cons, ih, mem_keys_act, or_assoc]
    apply or_congr_right
    constructor
    · rintro (⟨e, rfl, he⟩ | ⟨e, hm, he⟩)
      · exact ⟨e, List.mem_cons_self, he⟩
      · exact ⟨e, List.mem_cons_of_mem _ hm, he⟩
    · rintro ⟨e, hm, he⟩
      rcases List.mem_cons.mp hm with ht | hm
      · exact Or.inl ⟨e, ht.symm, he⟩
      · exact Or.inr ⟨e, hm, he⟩

end Touch

namespace Fixture

theorem accepts_iff {e : Entry} : accepts e = true ↔ e.path ≠ "" ∧ e.path ≠ Path.root := by
  simp [accepts]

theorem get?_empty {p : String} (h : p ≠ Path.root) : empty.get? p = none := by
  rw [get?, empty, Catalog.get?_insert, if_neg (Ne.symm h), Catalog.get?_empty]

/-! Entries are put in and edited without a change of the settings. -/

theorem insert_eq (f : Fixture) (e : Entry) :
    f.insert e = { f with entries := Touch.act f.entries (.put e) } := by
  rw [insert, Touch.act]
  split <;> rfl

theorem extend_eq (f : Fixture) (es : List Entry) :
    f.extend es = { f with entries := (es.map Touch.put).foldl Touch.act f.entries } := by
  induction es generalizing f with
  | nil => rfl
  | cons e es ih =>
    rw [extend_cons, ih, insert_eq]
    rfl

theorem edits_eq (f : Fixture) (path : String) (ds : List Edit) :
    ds.foldl (fun f d => f.edit path d) f =
      { f with entries := (ds.map (Touch.edit path)).foldl Touch.act f.entries } := by
  induction ds generalizing f with
  | nil => rfl
  | cons d ds ih =>
    rw [List.foldl_cons, ih]
    rfl

theorem foldl_act_of_absent {c : Catalog Entry} {path : String} (h : c.get? path = none) (ds : List Edit) :
    (ds.map (Touch.edit path)).foldl Touch.act c = c := by
  induction ds with
  | nil => rfl
  | cons d ds ih => rw [List.map_cons, List.foldl_cons, Touch.act, Catalog.modify_of_absent h, ih]

theorem configure_eq (f : Fixture) (path : String) (accesses : List Access) :
    (f.configure path accesses).2 =
      { f with
        entries := ((accesses.filterMap Access.edit?).map (Touch.edit path)).foldl Touch.act f.entries } := by
  unfold configure
  cases h : f.get? path with
  | none => rw [foldl_act_of_absent h]
  | some e =>
    have he : (fun | .edit d => some d | _ => none) = Access.edit? := by
      funext a
      cases a <;> rfl
    rw [← he]
    exact edits_eq f path _

theorem entries_insert (f : Fixture) (e : Entry) : (f.insert e).entries = Touch.act f.entries (.put e) := by
  rw [insert_eq]

theorem entries_extend (f : Fixture) (es : List Entry) :
    (f.extend es).entries = (es.map Touch.put).foldl Touch.act f.entries := by
  rw [extend_eq]

theorem entries_apply (f : Fixture) (o : Options) : (f.apply o).entries = f.entries := by
  obtain ⟨logging, sink, absPrefix, absError⟩ := o
  cases logging <;> cases sink <;> cases absPrefix <;> cases absError <;> rfl

/-- The effect of a change on the stored entries is that of its touches. -/
theorem entries_change (f : Fixture) (c : Change) :
    (f.change c).entries = c.touches.foldl Touch.act f.entries := by
  cases c with
  | insert e => exact f.entries_insert e
  | extend es => exact f.entries_extend es
  | addSpecs specs => rw [change, addSpecs_eq_extend, entries_extend, Change.touches]
  | configure path accesses => rw [change, configure_eq, Change.touches]
  | apply o => exact f.entries_apply o
  | setLogger | setLogging | setAbsPrefix | setAbsError => rfl

theorem entries_run (f : Fixture) (cs : List Change) :
    (f.run cs).entries = (history cs).foldl Touch.act f.entries := by
  induction cs generalizing f with
  | nil => rfl
  | cons c cs ih =>
    change ((f.change c).run cs).entries = _
    rw [ih, entries_change, ← List.foldl_append]
    rfl

/-- A change is not seen at a path that it does not touch. -/
theorem get?_change_of_ne (f : Fixture) {c : Change} {p : String} (h : ∀ t ∈ c.touches, t.path ≠ p) :
    (f.change c).get? p = f.get? p := by
  rw [get?, entries_change, Touch.get?_foldl_act_of_ne h]
  rfl

end Fixture
end FileFixture
