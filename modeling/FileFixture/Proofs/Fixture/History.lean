import FileFixture.Proofs.Fixture.Change
import FileFixture.Proofs.Text.ByteOrder

/-!
The table as a function of its history. A path answers with the entry that was put there last, changed by the
edits made at that path since then and by nothing else; of the edits the last one of each kind counts. The
paths are those of the accepted entries, each once and in the order of their bytes.
-/
namespace FileFixture

namespace Edit

def content? : Edit → Option (Option (List UInt8))
  | .setContent bytes => some (some bytes)
  | _ => none

def error? : Edit → Option (Option String)
  | .setError message => some (some message)
  | .clearError => some none
  | _ => none

def mode? : Edit → Option UInt32
  | .setMode mode => some mode
  | _ => none

end Edit

/-- The entry with the last content, the last error and the last mode that edits gave it. -/
def Entry.edited (e : Entry) (ds : List Edit) : Entry :=
  { e with
    content := (ds.filterMap Edit.content?).getLast?.getD e.content
    error := (ds.filterMap Edit.error?).getLast?.getD e.error
    mode := (ds.filterMap Edit.mode?).getLast?.getD e.mode }

theorem getLastD_filterMap_cons {α β : Type} (f : α → Option β) (a : α) (as : List α) (b : β) :
    ((a :: as).filterMap f).getLast?.getD b = (as.filterMap f).getLast?.getD ((f a).getD b) := by
  cases h : f a with
  | none => rw [List.filterMap_cons_none h, Option.getD_none]
  | some x => rw [List.filterMap_cons_some h, List.getLast?_cons, Option.getD_some, Option.getD_some]

namespace Entry

theorem edit_eq (e : Entry) (d : Edit) :
    e.edit d = { e with
      content := d.content?.getD e.content, error := d.error?.getD e.error, mode := d.mode?.getD e.mode } := by
  cases d <;> rfl

theorem edited_cons (e : Entry) (d : Edit) (ds : List Edit) :
    e.edited (d :: ds) = (e.edit d).edited ds := by
  rw [edited, edited, edit_eq, getLastD_filterMap_cons, getLastD_filterMap_cons, getLastD_filterMap_cons]

end Entry

/-- The edits that some touches make at a path. -/
def editsAt (p : String) (ts : List Touch) : List Edit :=
  ts.filterMap fun
    | .put _ => none
    | .edit path d => if path = p then some d else none

/-- The entry that was the last to be put at a path, and all touches after it. -/
structure LastPut (ts : List Touch) (p : String) (e : Entry) (after : List Touch) : Prop where
  put : ∃ before, ts = before ++ .put e :: after
  path_eq : e.path = p
  accepted : e.path ≠ "" ∧ e.path ≠ Path.root
  last : ∀ e', .put e' ∈ after → e'.path ≠ p

namespace Touch

variable {c : Catalog Entry}

/-- Where no entry is put, the one that is there is only edited. -/
theorem get?_foldl_act_of_edits {ts : List Touch} {p : String}
    (h : ∀ e, .put e ∈ ts → Fixture.accepts e = true → e.path ≠ p) :
    (ts.foldl act c).get? p = (c.get? p).map fun e => e.edited (editsAt p ts) := by
  induction ts generalizing c with
  | nil => exact Option.map_id'.symm
  | cons t ts ih =>
    have hts := ih (c := act c t) fun e hm => h e (List.mem_cons_of_mem _ hm)
    rw [List.foldl_cons, hts]
    cases t with
    | put e =>
      have he : editsAt p (.put e :: ts) = editsAt p ts := rfl
      rw [he, act]
      split
      case isTrue ha => rw [Catalog.get?_insert, if_neg (h e List.mem_cons_self ha)]
      case isFalse => rfl
    | edit path d =>
      by_cases hp : path = p
      · have he : editsAt p (.edit path d :: ts) = d :: editsAt p ts := List.filterMap_cons_some (if_pos hp)
        rw [he, act, Catalog.get?_modify, if_pos hp.symm, Option.map_map]
        congr 1
        funext e
        exact (e.edited_cons d _).symm
      · have he : editsAt p (.edit path d :: ts) = editsAt p ts := List.filterMap_cons_none (if_neg hp)
        have ht : (Touch.edit path d).path ≠ p := hp
        rw [he, get?_act_of_ne ht]

theorem get?_foldl_act_of_lastPut {ts after : List Touch} {p : String} {e : Entry}
    (h : LastPut ts p e after) : (ts.foldl act c).get? p = some (e.edited (editsAt p after)) := by
  obtain ⟨⟨before, rfl⟩, hp, ha, hlast⟩ := h
  rw [List.foldl_append, List.foldl_cons, get?_foldl_act_of_edits fun e' hm _ => hlast e' hm, act,
    if_pos (Fixture.accepts_iff.mpr ha), hp, Catalog.get?_insert_self]
  rfl

/-- Some entry is the last at a path, unless none was ever accepted there. -/
theorem lastPut_or_forall (ts : List Touch) (p : String) :
    (∃ e after, LastPut ts p e after) ∨ ∀ e, .put e ∈ ts → Fixture.accepts e = true → e.path ≠ p := by
  induction ts with
  | nil => exact Or.inr fun e hm => absurd hm List.not_mem_nil
  | cons t ts ih =>
    rcases ih with ⟨e, after, ⟨before, hts⟩, hp, ha, hlast⟩ | hnone
    · exact Or.inl ⟨e, after, ⟨t :: before, by rw [hts, List.cons_append]⟩, hp, ha, hlast⟩
    · by_cases ht : ∃ e, t = .put e ∧ Fixture.accepts e = true ∧ e.path = p
      · obtain ⟨e, rfl, ha, hp⟩ := ht
        refine Or.inl ⟨e, ts, ⟨[], rfl⟩, hp, Fixture.accepts_iff.mp ha, fun e' hm he' => ?_⟩
        have ha' : Fixture.accepts e' = true := by
          rw [Fixture.accepts_iff, he', ← hp]
          exact Fixture.accepts_iff.mp ha
        exact hnone e' hm ha' he'
      · refine Or.inr fun e hm ha hp => ?_
        rcases List.mem_cons.mp hm with he | hm
        · exact ht ⟨e, he.symm, ha, hp⟩
        · exact hnone e hm ha hp

end Touch

namespace Fixture

variable (cs : List Change)

theorem get?_run_eq_some_iff {p : String} (h : p ≠ Path.root) (e : Entry) :
    (empty.run cs).get? p = some e ↔
      ∃ e₀ after, LastPut (history cs) p e₀ after ∧ e = e₀.edited (editsAt p after) := by
  rw [get?, entries_run]
  constructor
  · intro hg
    rcases Touch.lastPut_or_forall (history cs) p with ⟨e₀, after, hl⟩ | hn
    · rw [Touch.get?_foldl_act_of_lastPut hl] at hg
      exact ⟨e₀, after, hl, (Option.some.inj hg).symm⟩
    · have he : empty.entries.get? p = none := get?_empty h
      rw [Touch.get?_foldl_act_of_edits hn, he] at hg
      cases hg
  · rintro ⟨e₀, after, hl, rfl⟩
    exact Touch.get?_foldl_act_of_lastPut hl

theorem mem_paths_run {p : String} :
    p ∈ (empty.run cs).paths ↔
      p = Path.root ∨ ∃ e, .put e ∈ history cs ∧ (e.path ≠ "" ∧ e.path ≠ Path.root) ∧ e.path = p := by
  have he : p ∈ empty.entries.keys ↔ p = Path.root := List.mem_singleton
  rw [paths, entries_run, Touch.mem_keys_foldl_act, he]
  simp only [accepts_iff]

theorem get?_eq_none_iff {f : Fixture} {p : String} : f.get? p = none ↔ p ∉ f.paths := by
  rw [paths, Catalog.mem_keys_iff, get?, Option.eq_none_iff_forall_ne_some, not_exists]

theorem paths_pairwise (f : Fixture) : f.paths.Pairwise fun a b => Text.bytes a < Text.bytes b :=
  f.entries.keys_pairwise.imp Text.bytes_lt_of_lt

/-- What a table that started empty answers after any changes: the entry that was the last to be put at a
path, as it was edited since, and nothing where none was accepted. -/
theorem run_empty_eq_history (cs : List Change) :
    (∀ (s : Session) (e : Entry),
      (s.step (.insert e)).reply = .flag (decide (e.path ≠ "" ∧ e.path ≠ Path.root)) ∧
        (¬(e.path ≠ "" ∧ e.path ≠ Path.root) → (s.step (.insert e)).session = s)) ∧
    (∀ p, p ≠ Path.root →
      (∀ e, (empty.run cs).get? p = some e ↔
        ∃ e₀ after, LastPut (history cs) p e₀ after ∧ e = e₀.edited (editsAt p after)) ∧
      ((empty.run cs).get? p = none ↔
        ∀ e, .put e ∈ history cs → ¬((e.path ≠ "" ∧ e.path ≠ Path.root) ∧ e.path = p))) ∧
    (∀ (f : Fixture) (c : Change) (p : String), (∀ t ∈ c.touches, t.path ≠ p) →
      (f.change c).get? p = f.get? p) ∧
    ((empty.run cs).paths.Pairwise (fun a b => Text.bytes a < Text.bytes b) ∧
      ∀ p, p ∈ (empty.run cs).paths ↔
        p = Path.root ∨ ∃ e, .put e ∈ history cs ∧ (e.path ≠ "" ∧ e.path ≠ Path.root) ∧ e.path = p) ∧
    (empty.run cs).entryList.map some = (empty.run cs).paths.map (empty.run cs).get? ∧
    (empty.run cs).size = (empty.run cs).paths.length := by
  refine ⟨fun s e => ⟨?_, ?_⟩, fun p hp => ⟨get?_run_eq_some_iff cs hp, ?_⟩,
    fun f c p h => get?_change_of_ne f h, ⟨paths_pairwise _, fun p => mem_paths_run cs⟩,
    Catalog.values_map_some _, Catalog.size_eq_length_keys _⟩
  · have ha : accepts e = decide (e.path ≠ "" ∧ e.path ≠ Path.root) := by
      rw [Bool.eq_iff_iff, accepts_iff, decide_eq_true_iff]
    exact congrArg Reply.flag ha
  · intro hn
    have ha : accepts e = false := by
      rw [← Bool.not_eq_true, accepts_iff]
      exact hn
    change { s with fixture := s.fixture.insert e } = s
    rw [insert_of_refused _ ha]
  · rw [get?_eq_none_iff, mem_paths_run]
    simp [hp]

/-- An edit does not outlive the entry that it was made to. -/
theorem run_empty_eq_history_replaced :
    (empty.run [.insert (Entry.file "" |>.place "/a"), .configure "/a" [.edit (.setMode 7)],
      .insert (Entry.dir "" |>.place "/a"), .configure "/a" [.edit (.setError "no")]]).get? "/a" =
      some { (Entry.dir "" |>.place "/a") with error := some "no" } := by
  refine (((run_empty_eq_history _).2.1 "/a" (by decide)).1 _).mpr ?_
  refine ⟨Entry.dir "" |>.place "/a", [.edit "/a" (.setError "no")], ?_, rfl⟩
  constructor
  · exact ⟨[.put (Entry.file "" |>.place "/a"), .edit "/a" (.setMode 7)], rfl⟩
  · decide
  · decide
  · exact fun e' hm => absurd hm (by simp)

end Fixture
end FileFixture
