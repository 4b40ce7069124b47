import FileFixture.Proofs.Fixture.Bare
import FileFixture.Session

/-!
Queries with visitors of any kind. A session asks with visitors that do nothing or that follow a rule, and this is no
restriction: on any one fixture a rule can stand in for every visitor, since no path is visited twice.
-/
namespace FileFixture

/-- A query, for a walk with a visitor of any kind. -/
inductive Inquiry (σ : Type) where
  | stat (path : String)
  | content (path : String)
  | list (path : String)
  | walk (path : String) (visitor : Visitor σ) (s : σ)
  | walkUntil (path : String) (visitor : Visitor σ) (s : σ)
  | abs (path : String)
  | write (path : String) (bytes : List UInt8) (mode : UInt32)

namespace Inquiry

variable {σ : Type}

def op : Inquiry σ → String
  | .stat _ => "stat"
  | .content _ => "read_file"
  | .list _ => "read_dir"
  | .walk .. | .walkUntil .. => "walk"
  | .abs _ => "abs"
  | .write .. => "write_file"

def path : Inquiry σ → String
  | .stat path | .content path | .list path | .walk path .. | .walkUntil path .. | .abs path | .write path .. => path

def isWalk : Inquiry σ → Bool
  | .walk .. | .walkUntil .. => true
  | _ => false

/-- Nothing is told of it unless it is refused. -/
def isQuiet : Inquiry σ → Bool
  | .stat _ | .content _ | .abs _ => true
  | _ => false

end Inquiry

/-- The queries of a session ask with visitors that do nothing, or that follow a rule. -/
def Query.inquiry : Query → Inquiry Unit
  | .stat path => .stat path
  | .content path => .content path
  | .list path => .list path
  | .walk path => .walk path (fun _ _ => ((), none)) ()
  | .walkUntil path rule => .walkUntil path rule.visitor ()
  | .abs path => .abs path
  | .write path bytes mode => .write path bytes mode

theorem StopRule.consents {r : StopRule} {visits : List Visit} (h : ∀ v ∈ visits, r.stops v = false) :
    r.visitor.Consents () visits := by
  induction visits with
  | nil => exact fun a ha => absurd ha List.not_mem_nil
  | cons v visits ih =>
    obtain ⟨hv, hvisits⟩ := List.forall_mem_cons.mp h
    have hnone : (r.visitor () v).2 = none := by rw [visitor, hv]; rfl
    exact Visitor.consents_cons.mpr ⟨hnone, ih hvisits⟩

/-- Where no path is visited twice, the path of the visit that stops a walk is enough of a rule. -/
theorem Visitor.StopsAt.rule {σ : Type} {visitor : Visitor σ} {s : σ} {visits before : List Visit} {v : Visit}
    {fault : Fault} (h : visitor.StopsAt s visits before v fault) (hnodup : (visits.map Visit.path).Nodup) :
    (StopRule.mk (some v.path) false fault).visitor.StopsAt () visits before v fault := by
  have hpart : ((before ++ [v]).map Visit.path).Nodup := hnodup.sublist (h.found.sublist.map Visit.path)
  rw [List.map_append, List.nodup_append] at hpart
  have hnew : ∀ w ∈ before, v.path ≠ w.path := fun w hw =>
    Ne.symm (hpart.2.2 _ (List.mem_map_of_mem hw) _ List.mem_cons_self)
  constructor
  · exact h.found
  · refine StopRule.consents fun w hw => ?_
    simp [StopRule.stops, hnew w hw]
  · simp [StopRule.visitor, StopRule.stops]

namespace Fixture

variable (f : Fixture) {σ : Type}

/-- Whether an inquiry is refused, and the records that it leaves. -/
def inquire : Inquiry σ → Answer Unit
  | .stat path => (f.stat path).map fun _ => ()
  | .content path => (f.content path).map fun _ => ()
  | .list path => (f.list path).map fun _ => ()
  | .walk path visitor s => (f.walk path visitor s).answer
  | .walkUntil path visitor s => (f.walkUntil path visitor s).answer
  | .abs path => (f.abs path).map fun _ => ()
  | .write path bytes mode => f.write path bytes mode

/-- The visits that an inquiry makes. -/
def inquiryVisits : Inquiry σ → List Visit
  | .walk path visitor s => (f.walk path visitor s).visits
  | .walkUntil path visitor s => (f.walkUntil path visitor s).visits
  | _ => []

/-- The paths that a visitor is called with. -/
def visited (q : Inquiry σ) : List String := (f.inquiryVisits q).map (·.path)

/-- On one fixture a rule can stand in for any visitor. -/
theorem exists_rule (root : String) (visitor : Visitor σ) (s : σ) :
    ∃ rule : StopRule, (f.walkUntil root rule.visitor ()).visits = (f.walkUntil root visitor s).visits ∧
      (f.walkUntil root rule.visitor ()).answer = (f.walkUntil root visitor s).answer := by
  rcases f.enterable_or_barred root with ⟨e, hg, he, hd⟩ | ⟨fault, hb⟩
  · have hcut : ∀ {τ : Type} (visitor : Visitor τ) (s : τ),
        f.walkUntil root visitor s = .cut visitor s (f.visits root) := fun _ s => tour_enterable hg he hd s _
    rw [hcut visitor s]
    rcases Visitor.consents_or_stopsAt visitor s (f.visits root) with hc | ⟨before, v, fault, hs⟩
    · refine ⟨⟨none, false, .notFound root⟩, ?_⟩
      rw [hcut, Tour.cut_of_consents hc, Tour.cut_of_consents (StopRule.consents fun _ _ => rfl)]
      exact ⟨rfl, rfl⟩
    · have hnodup : ((f.visits root).map Visit.path).Nodup := by
        rw [visits_map_path]
        exact f.pathsWithin_nodup root
      refine ⟨⟨some v.path, false, fault⟩, ?_⟩
      rw [hcut, Tour.cut_of_stopsAt hs, Tour.cut_of_stopsAt (hs.rule hnodup)]
      exact ⟨rfl, rfl⟩
  · refine ⟨⟨none, false, .notFound root⟩, ?_⟩
    rw [walkUntil, walkUntil, tour_barred hb, tour_barred hb]
    exact ⟨rfl, rfl⟩

/-- Whoever visits, some query of a session is answered alike, with the same visits and the same records. -/
theorem exists_query (q : Inquiry σ) :
    ∃ q' : Query, f.inquire q'.inquiry = f.inquire q ∧ f.inquiryVisits q'.inquiry = f.inquiryVisits q := by
  cases q with
  | stat path => exact ⟨.stat path, rfl, rfl⟩
  | content path => exact ⟨.content path, rfl, rfl⟩
  | list path => exact ⟨.list path, rfl, rfl⟩
  | walk root visitor s =>
    obtain ⟨hvisits, hanswer⟩ := f.walk_visits_and_answer root () (fun _ _ => ((), none)) visitor s
    exact ⟨.walk root, hanswer, hvisits⟩
  | walkUntil root visitor s =>
    obtain ⟨rule, hvisits, hanswer⟩ := f.exists_rule root visitor s
    exact ⟨.walkUntil root rule, hanswer, hvisits⟩
  | abs path => exact ⟨.abs path, rfl, rfl⟩
  | write path bytes mode => exact ⟨.write path bytes mode, rfl, rfl⟩

end Fixture
end FileFixture
