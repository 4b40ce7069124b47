import FileFixture.Proofs.Fixture.Inquiry
import FileFixture.Session
import Mathlib.Data.List.Basic

/-!
What the records tell. Each outcome of a query leaves certain records and no others, and a logger that is enabled
delivers exactly these: the refusal, if there is one, is what the last of them tells; a listing is told in any
case; a walk tells of each path that it visits.
-/
namespace FileFixture

namespace Fixture

variable (f : Fixture) {σ : Type}

/-- What an inquiry adds to the memory of records. -/
def added (q : Inquiry σ) : List Record := f.logger.delivered .memory (f.inquire q).records

/-- What is told of the visit of a path: the error of the entry that is stored there, if it has one, and the call
of the visitor. -/
def visitRecords (key : String) : List Record :=
  (((f.get? key).bind Entry.error).toList.map fun message => ⟨"walk", presetError, key, some message⟩) ++
    [⟨"walk", "calling visitor", key, none⟩]

/-- The records of each outcome that an inquiry may have. -/
inductive Told : Inquiry σ → Except Fault Unit → List Record → Prop
  | answered {q : Inquiry σ} : q.isQuiet = true → Told q (.ok ()) []
  | refused {q : Inquiry σ} {fault : Fault} : q.isQuiet = true →
      Told q (.error fault) [⟨q.op, fault.decision, q.path, some fault.message⟩]
  | written {path : String} {bytes : List UInt8} {mode : UInt32} :
      Told (.write path bytes mode) (.ok ()) [⟨"write_file", writeNote bytes.length mode, path, none⟩]
  | listed {dir : String} : Told (.list dir) (.ok ()) [⟨"read_dir", "return entries", dir, none⟩]
  | listBarred {dir : String} {fault : Fault} : f.Barred dir fault →
      Told (.list dir) (.error fault) [⟨"read_dir", fault.decision, dir, some fault.message⟩]
  | listAborted {dir key message : String} {before after : List (String × Entry)} {child : Entry} :
      f.childBindings dir = before ++ (key, child) :: after → (∀ b ∈ before, b.2.error = none) →
      child.error = some message →
      Told (.list dir) (.error (.injected message)) [⟨"read_dir", presetError, key, some message⟩]
  | walkBarred {q : Inquiry σ} {fault : Fault} : q.isWalk = true → f.Barred q.path fault → f.visited q = [] →
      Told q (.error fault) [⟨"walk", fault.decision, q.path, some fault.message⟩]
  | walked {q : Inquiry σ} : q.isWalk = true → f.visited q ≠ [] →
      Told q (.ok ()) ((f.visited q).flatMap f.visitRecords)
  | stopped {root : String} {visitor : Visitor σ} {s : σ} {before : List Visit} {v : Visit} {fault : Fault} :
      visitor.StopsAt s (f.walk root visitor s).visits before v fault →
      f.visited (.walkUntil root visitor s) = before.map (·.path) ++ [v.path] →
      Told (.walkUntil root visitor s) (.error fault)
        ((f.visited (.walkUntil root visitor s)).flatMap f.visitRecords ++
          [⟨"walk", "visitor stopped walk", v.path, some fault.message⟩])

/-! ### Which outcome there is -/

theorem lookup_cases (op path : String) :
    (∃ e, f.lookup op path = .ok e) ∨ ∃ fault, f.lookup op path = .refuse op fault.decision path fault := by
  rw [lookup_eq]
  cases f.get? path with
  | none => exact Or.inr ⟨.notFound path, rfl⟩
  | some e =>
    cases he : e.error with
    | none => exact Or.inl ⟨e, by simp [he]⟩
    | some message => exact Or.inr ⟨.injected message, by simp [he, Fault.decision]⟩

theorem gather_cases (bs : List (String × Entry)) :
    gather bs = .ok (bs.map (·.2)) ∨ ∃ before key e after message, bs = before ++ (key, e) :: after ∧
      (∀ b ∈ before, b.2.error = none) ∧ e.error = some message ∧
        gather bs = .refuse "read_dir" presetError key (.injected message) := by
  induction bs with
  | nil => exact Or.inl rfl
  | cons b bs ih =>
    obtain ⟨key, e⟩ := b
    rw [gather_cons, Entry.fault?]
    cases he : e.error with
    | some message => exact Or.inr ⟨[], key, e, bs, message, rfl, fun _ hb => absurd hb List.not_mem_nil, he, rfl⟩
    | none =>
      rcases ih with hok | ⟨before, key', e', after, message, rfl, hbefore, he', hr⟩
      · exact Or.inl (by rw [hok]; rfl)
      · have hall : ∀ b ∈ (key, e) :: before, b.2.error = none := List.forall_mem_cons.mpr ⟨he, hbefore⟩
        exact Or.inr ⟨(key, e) :: before, key', e', after, message, rfl, hall, he', by rw [hr]; rfl⟩

theorem told_quiet {α : Type} {q : Inquiry σ} (hq : q.isQuiet = true) {a : Answer α}
    (h : (∃ x, a = .ok x) ∨ ∃ fault, a = .refuse q.op fault.decision q.path fault) :
    f.Told q (a.map fun _ => ()).result (a.map fun _ => ()).records := by
  rcases h with ⟨x, rfl⟩ | ⟨fault, rfl⟩
  · exact .answered hq
  · exact .refused hq

theorem told_list (dir : String) :
    f.Told (.list dir : Inquiry σ) ((f.list dir).map fun _ => ()).result ((f.list dir).map fun _ => ()).records := by
  rcases f.enterable_or_barred dir with ⟨e, hg, he, hd⟩ | ⟨fault, hb⟩
  · rw [list_eq_gather, f.requireDir_ok hg he hd, Answer.bind_ok]
    rcases gather_cases (f.childBindings dir) with hok | ⟨before, key, child, after, message, hc, hbefore, hm, hr⟩
    · rw [hok]
      exact .listed
    · rw [hr]
      exact .listAborted hc hbefore hm
  · rw [list, f.requireDir_barred hb]
    exact .listBarred hb

/-- A visit tells of what is stored at its path. -/
theorem records_of_mem_visits {root : String} {v : Visit} (h : v ∈ f.visits root) :
    v.records = f.visitRecords v.path := by
  obtain ⟨-, e, hg, ho⟩ := mem_visits.mp h
  rw [visitRecords, hg, Option.bind_some, Visit.records, ho, Entry.outcome]
  cases e.error <;> rfl

theorem flatMap_records_visits {root : String} {visits : List Visit} (h : visits ⊆ f.visits root) :
    visits.flatMap Visit.records = (visits.map (·.path)).flatMap f.visitRecords := by
  rw [List.flatMap_map]
  exact List.flatMap_congr fun v hv => f.records_of_mem_visits (h hv)

/-- A walk that made all visits of its root, and was not stopped, tells of each of them. -/
theorem told_full {q : Inquiry σ} (hq : q.isWalk = true) {root : String} {e : Entry} (hg : f.get? root = some e)
    (hvisits : f.inquiryVisits q = f.visits root)
    (hanswer : f.inquire q = ⟨.ok (), (f.visits root).flatMap Visit.records⟩) :
    f.Told q (f.inquire q).result (f.inquire q).records := by
  have hvisited : f.visited q = (f.visits root).map (·.path) := congrArg (List.map Visit.path) hvisits
  have hne : f.visited q ≠ [] := by
    rw [hvisited, ne_eq, List.map_eq_nil_iff]
    exact visits_ne_nil hg
  rw [hanswer, f.flatMap_records_visits (List.Subset.refl _), ← hvisited]
  exact .walked hq hne

/-- A walk that was refused at its root tells of that alone. -/
theorem told_none {q : Inquiry σ} (hq : q.isWalk = true) {fault : Fault} (hb : f.Barred q.path fault)
    (hvisits : f.inquiryVisits q = []) (hanswer : f.inquire q = .refuse "walk" fault.decision q.path fault) :
    f.Told q (f.inquire q).result (f.inquire q).records := by
  have hvisited : f.visited q = [] := congrArg (List.map Visit.path) hvisits
  rw [hanswer]
  exact .walkBarred hq hb hvisited

theorem told_walk (root : String) (visitor : Visitor σ) (s : σ) :
    f.Told (.walk root visitor s) (f.walk root visitor s).answer.result (f.walk root visitor s).answer.records := by
  rcases f.enterable_or_barred root with ⟨e, hg, he, hd⟩ | ⟨fault, hb⟩
  · have hwhole : f.walk root visitor s = .full visitor s (f.visits root) := tour_enterable hg he hd s _
    exact f.told_full rfl hg (congrArg Tour.visits hwhole) (congrArg Tour.answer hwhole)
  · have hnone : f.walk root visitor s = ⟨s, [], _⟩ := tour_barred hb s _
    exact f.told_none rfl hb (congrArg Tour.visits hnone) (congrArg Tour.answer hnone)

theorem told_walkUntil (root : String) (visitor : Visitor σ) (s : σ) :
    f.Told (.walkUntil root visitor s) (f.walkUntil root visitor s).answer.result
      (f.walkUntil root visitor s).answer.records := by
  rcases f.enterable_or_barred root with ⟨e, hg, he, hd⟩ | ⟨fault, hb⟩
  · have hwhole : f.walk root visitor s = .full visitor s (f.visits root) := tour_enterable hg he hd s _
    have hpart : f.walkUntil root visitor s = .cut visitor s (f.visits root) := tour_enterable hg he hd s _
    rcases Visitor.consents_or_stopsAt visitor s (f.visits root) with hc | ⟨before, v, fault, hs⟩
    · rw [Tour.cut_of_consents hc] at hpart
      exact f.told_full rfl hg (congrArg Tour.visits hpart) (congrArg Tour.answer hpart)
    · rw [Tour.cut_of_stopsAt hs] at hpart
      have hvisited : f.visited (.walkUntil root visitor s) = (before ++ [v]).map (·.path) :=
        congrArg (·.visits.map (·.path)) hpart
      have hstops : visitor.StopsAt s (f.walk root visitor s).visits before v fault := by
        rw [hwhole]
        exact hs
      rw [hpart, f.flatMap_records_visits hs.found.subset, ← hvisited]
      exact .stopped hstops (hvisited.trans List.map_append)
  · have hnone : f.walkUntil root visitor s = ⟨s, [], _⟩ := tour_barred hb s _
    exact f.told_none rfl hb (congrArg Tour.visits hnone) (congrArg Tour.answer hnone)

/-- Every inquiry leaves the records of its outcome. -/
theorem told (q : Inquiry σ) : f.Told q (f.inquire q).result (f.inquire q).records := by
  cases q with
  | stat path => exact f.told_quiet rfl (f.lookup_cases "stat" path)
  | content path =>
    rcases f.lookup_cases "read_file" path with ⟨e, he⟩ | ⟨fault, hr⟩
    · exact f.told_quiet rfl (Or.inl ⟨_, by rw [content, he]; rfl⟩)
    · exact f.told_quiet rfl (Or.inr ⟨fault, by rw [content, hr]; rfl⟩)
  | list dir => exact f.told_list dir
  | walk root visitor s => exact f.told_walk root visitor s
  | walkUntil root visitor s => exact f.told_walkUntil root visitor s
  | abs path =>
    cases h : f.absError with
    | none => exact f.told_quiet rfl (Or.inl ⟨_, by rw [abs, h]⟩)
    | some message => exact f.told_quiet rfl (Or.inr ⟨.absPath message, by rw [abs, h]; rfl⟩)
  | write path bytes mode => exact .written

namespace Told

variable {f} {q : Inquiry σ} {result : Except Fault Unit} {rs : List Record}

theorem of_mem_visitRecords {keys : List String} {r : Record} (h : r ∈ keys.flatMap f.visitRecords) :
    r.op = "walk" ∧ r.path ∈ keys := by
  obtain ⟨key, hkey, hr⟩ := List.mem_flatMap.mp h
  rcases List.mem_append.mp hr with hr | hr
  · obtain ⟨message, -, rfl⟩ := List.mem_map.mp hr
    exact ⟨rfl, hkey⟩
  · obtain rfl := List.mem_singleton.mp hr
    exact ⟨rfl, hkey⟩

theorem op_eq_walk (hq : q.isWalk = true) : q.op = "walk" := by
  cases q with
  | walk | walkUntil => rfl
  | _ => cases hq

/-- Every record names the query that it is about. -/
theorem op_eq (h : f.Told q result rs) : ∀ r ∈ rs, r.op = q.op := by
  cases h with
  | answered => exact fun r hr => absurd hr List.not_mem_nil
  | walked hq =>
    intro r hr
    rw [op_eq_walk hq, (of_mem_visitRecords hr).1]
  | stopped =>
    intro r hr
    rcases List.mem_append.mp hr with hr | hr
    · exact (of_mem_visitRecords hr).1
    · exact List.mem_singleton.mp hr ▸ rfl
  | walkBarred hq =>
    intro r hr
    rw [op_eq_walk hq, List.mem_singleton.mp hr]
  | _ =>
    intro r hr
    exact List.mem_singleton.mp hr ▸ rfl

/-- A record has the path of the query, or one that a visitor was called with, or that of a child in a listing. -/
theorem path_cases (h : f.Told q result rs) : ∀ r ∈ rs, r.path = q.path ∨ r.path ∈ f.visited q ∨
    ∃ name, q = .list q.path ∧ Path.childName r.path q.path = some name := by
  cases h with
  | answered => exact fun r hr => absurd hr List.not_mem_nil
  | walked => exact fun r hr => Or.inr (Or.inl (of_mem_visitRecords hr).2)
  | stopped _ hvisited =>
    intro r hr
    rcases List.mem_append.mp hr with hr | hr
    · exact Or.inr (Or.inl (of_mem_visitRecords hr).2)
    · refine Or.inr (Or.inl ?_)
      rw [List.mem_singleton.mp hr, hvisited]
      exact List.mem_concat_self
  | listAborted hc =>
    intro r hr
    obtain ⟨-, name, hname⟩ := mem_childBindings.mp (hc ▸ List.mem_append_right _ List.mem_cons_self)
    exact Or.inr (Or.inr ⟨name, rfl, List.mem_singleton.mp hr ▸ hname⟩)
  | _ =>
    intro r hr
    exact Or.inl (List.mem_singleton.mp hr ▸ rfl)

/-- The last record of a query that is refused has the text of the refusal. -/
theorem getLast?_of_error {fault : Fault} (h : f.Told q (.error fault) rs) :
    ∃ r, rs.getLast? = some r ∧ r.error = some fault.message := by
  cases h with
  | stopped => exact ⟨_, List.getLast?_concat, rfl⟩
  | _ => exact ⟨_, rfl, rfl⟩

/-- Nothing but a walk leaves records of errors when it is answered. -/
theorem error_eq_none_of_ok (h : f.Told q (.ok ()) rs) (hq : q.isWalk = false) : ∀ r ∈ rs, r.error = none := by
  cases h with
  | answered => exact fun r hr => absurd hr List.not_mem_nil
  | walked hw =>
    rw [hq] at hw
    cases hw
  | _ =>
    intro r hr
    exact List.mem_singleton.mp hr ▸ rfl

end Told

theorem added_of_enabled {f : Fixture} (h : f.logger = .into .memory) (q : Inquiry σ) :
    f.added q = (f.inquire q).records := by
  rw [added, h, Logger.delivered_into]

/-- A logger that is enabled for the memory adds to it the records of the outcome and nothing else: each names the
query and a path of it, the last has the text of the refusal if there is one, and there are no errors told of an
answer other than those that a walk came upon. A logger that is disabled adds nothing. -/
theorem added_told (f : Fixture) {σ : Type} (q : Inquiry σ) :
    (f.logger = .into .memory →
      f.Told q (f.inquire q).result (f.added q) ∧
      (∀ r ∈ f.added q, r.op = q.op) ∧
      (∀ r ∈ f.added q, r.path = q.path ∨ r.path ∈ f.visited q ∨
        ∃ name, q = .list q.path ∧ Path.childName r.path q.path = some name) ∧
      (∀ fault, (f.inquire q).result = .error fault →
        ∃ r, (f.added q).getLast? = some r ∧ r.error = some fault.message) ∧
      ((f.inquire q).result = .ok () → q.isWalk = false → ∀ r ∈ f.added q, r.error = none)) ∧
    (f.logger.enabled = false → f.added q = []) ∧
    ∀ (s : Session) (q : Query),
      (s.step (.query q)).session.memory = s.memory ++ s.fixture.added q.inquiry := by
  refine ⟨fun h => ?_, fun h => ?_, fun s q => ?_⟩
  · have ht : f.Told q (f.inquire q).result (f.added q) := by
      rw [added_of_enabled h]
      exact f.told q
    refine ⟨ht, ht.op_eq, ht.path_cases, fun fault hr => ?_, fun hr => ?_⟩
    · exact Told.getLast?_of_error (hr ▸ ht)
    · exact Told.error_eq_none_of_ok (hr ▸ ht)
  · rw [added, Logger.delivered, h]
    simp
  · cases q <;> rfl

/-- A walk that hands over an injected error and is stopped later by its visitor tells of both. -/
theorem added_told_stopped :
    let f := build ["/a [b (err=no), c, d]"] { Options.unset with sink := some .memory }
    let visitor : Visitor Nat := fun n v => (n + 1, if n = 2 then some (.notFound v.path) else none)
    let q : Inquiry Nat := .walkUntil "/a" visitor 0
    (f.added q).map (fun r => (r.path, r.error)) = [("/a", none), ("/a/b", some "no"), ("/a/b", none),
      ("/a/c", none), ("/a/c", some "Not found: /a/c")] ∧ f.Told q (.error (.notFound "/a/c")) (f.added q) := by
  intro f visitor q
  have ht := ((added_told f q).1 rfl).1
  exact ⟨by decide, ht⟩

end Fixture
end FileFixture
