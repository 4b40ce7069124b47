import FileFixture.Proofs.Fixture.Selection

/-!
A walk that may be stopped is the walk that may not, cut behind the first visit to which the visitor answers
with a fault. An injected error that a visit hands over is none of the visitor's answers and stops nothing.
-/
namespace FileFixture

namespace Visitor

variable {σ : Type} (visitor : Visitor σ)

/-- The visitor's state after some visits. -/
def after (s : σ) (visits : List Visit) : σ := visits.foldl (fun s v => (visitor s v).1) s

/-- What the visitor answers to some visits, one after the other. -/
def answers : σ → List Visit → List (Option Fault)
  | _, [] => []
  | s, v :: rest => (visitor s v).2 :: answers (visitor s v).1 rest

/-- No visit is answered with a fault. -/
def Consents (s : σ) (visits : List Visit) : Prop := ∀ a ∈ visitor.answers s visits, a = none

/-- Of some visits `v` is the first to be answered with a fault, after those of `before`. -/
structure StopsAt (s : σ) (visits before : List Visit) (v : Visit) (fault : Fault) : Prop where
  found : before ++ [v] <+: visits
  consents : visitor.Consents s before
  stops : (visitor (visitor.after s before) v).2 = some fault

variable {visitor} {s : σ} {v : Visit} {visits before : List Visit} {fault : Fault}

theorem consents_cons :
    visitor.Consents s (v :: visits) ↔ (visitor s v).2 = none ∧ visitor.Consents (visitor s v).1 visits :=
  List.forall_mem_cons

theorem StopsAt.cons (hv : (visitor s v).2 = none) {w : Visit}
    (h : visitor.StopsAt (visitor s v).1 visits before w fault) :
    visitor.StopsAt s (v :: visits) (v :: before) w fault where
  found := (List.prefix_cons_inj v).mpr h.found
  consents := consents_cons.mpr ⟨hv, h.consents⟩
  stops := h.stops

theorem consents_or_stopsAt (visitor : Visitor σ) (s : σ) (visits : List Visit) :
    visitor.Consents s visits ∨ ∃ before v fault, visitor.StopsAt s visits before v fault := by
  induction visits generalizing s with
  | nil => exact Or.inl fun a ha => absurd ha List.not_mem_nil
  | cons v visits ih =>
    cases hv : (visitor s v).2 with
    | some fault =>
      have hfirst : [v] <+: v :: visits := ⟨visits, rfl⟩
      exact Or.inr ⟨[], v, fault, hfirst, fun a ha => absurd ha List.not_mem_nil, hv⟩
    | none =>
      rcases ih (visitor s v).1 with hc | ⟨before, w, fault, hw⟩
      · exact Or.inl (consents_cons.mpr ⟨hv, hc⟩)
      · exact Or.inr ⟨v :: before, w, fault, hw.cons hv⟩

end Visitor

namespace Tour

variable {σ : Type} {visitor : Visitor σ} {s : σ} {visits before : List Visit} {v : Visit} {fault : Fault}

theorem cut_cons_consent (h : (visitor s v).2 = none) :
    cut visitor s (v :: visits) =
      { state := (cut visitor (visitor s v).1 visits).state
        visits := v :: (cut visitor (visitor s v).1 visits).visits
        answer :=
          { result := (cut visitor (visitor s v).1 visits).answer.result
            records := v.records ++ (cut visitor (visitor s v).1 visits).answer.records } } := by
  rw [cut]
  split
  case h_1 hs =>
    rw [hs] at h
    cases h
  case h_2 hs => rw [hs]

theorem cut_cons_stop (h : (visitor s v).2 = some fault) :
    cut visitor s (v :: visits) =
      { state := (visitor s v).1
        visits := [v]
        answer := ⟨.error fault, v.records ++ [.refusal "walk" "visitor stopped walk" v.path fault]⟩ } := by
  rw [cut]
  split
  case h_1 hs =>
    rw [hs] at h
    cases h
    rw [hs]
  case h_2 hs =>
    rw [hs] at h
    cases h

/-- Where no visit is answered with a fault, nothing is cut. -/
theorem cut_of_consents (h : visitor.Consents s visits) : cut visitor s visits = full visitor s visits := by
  induction visits generalizing s with
  | nil => rfl
  | cons v visits ih =>
    obtain ⟨hv, hvisits⟩ := Visitor.consents_cons.mp h
    rw [cut_cons_consent hv, ih hvisits]
    rfl

/-- Behind the visits that were made stands one record more, of the fault that stopped them. -/
theorem cut_of_stopsAt (h : visitor.StopsAt s visits before v fault) :
    cut visitor s visits =
      { state := visitor.after s (before ++ [v])
        visits := before ++ [v]
        answer :=
          { result := .error fault
            records := (before ++ [v]).flatMap Visit.records ++
              [.refusal "walk" "visitor stopped walk" v.path fault] } } := by
  obtain ⟨⟨rest, rfl⟩, hc, hs⟩ := h
  induction before generalizing s with
  | nil =>
    have hv : (visitor s v).2 = some fault := hs
    rw [List.nil_append, List.singleton_append, cut_cons_stop hv]
    simp [Visitor.after]
  | cons w before ih =>
    obtain ⟨hw, hc⟩ := Visitor.consents_cons.mp hc
    rw [List.cons_append, List.cons_append, cut_cons_consent hw, ih hc hs]
    simp [Visitor.after]

/-- `part` has made the visits of `whole` up to the first that is answered with a fault, has left the records of
these visits and one more at the path where it stopped, and answers with the fault. -/
structure CutAt (whole : Tour σ) (visitor : Visitor σ) (s : σ) (before : List Visit) (v : Visit) (fault : Fault)
    (part : Tour σ) : Prop where
  stopsAt : visitor.StopsAt s whole.visits before v fault
  visits : part.visits = before ++ [v]
  state : part.state = visitor.after s (before ++ [v])
  result : part.answer.result = .error fault
  logged : (before ++ [v]).flatMap Visit.records <+: whole.answer.records
  records : part.answer.records =
    (before ++ [v]).flatMap Visit.records ++ [.refusal "walk" "visitor stopped walk" v.path fault]

theorem cutAt_of_stopsAt (h : visitor.StopsAt s visits before v fault) :
    (full visitor s visits).CutAt visitor s before v fault (cut visitor s visits) := by
  rw [cut_of_stopsAt h]
  refine ⟨h, rfl, rfl, rfl, ?_, rfl⟩
  obtain ⟨rest, rfl⟩ := h.found
  exact ⟨rest.flatMap Visit.records, List.flatMap_append.symm⟩

end Tour

namespace Fixture

variable {f : Fixture} {root : String}

/-- A walk that is entered visits its root. -/
theorem visits_ne_nil {e : Entry} (h : f.get? root = some e) : f.visits root ≠ [] :=
  List.ne_nil_of_mem (root_mem_visits h)

theorem tour_barred {σ : Type} {fault : Fault} (h : f.Barred root fault) (s : σ) (go : List Visit → Tour σ) :
    f.tour root s go = ⟨s, [], .refuse "walk" fault.decision root fault⟩ := by
  rw [tour, f.requireDir_barred h]
  rfl

theorem tour_enterable {σ : Type} {e : Entry} (h : f.get? root = some e) (he : e.error = none)
    (hd : e.isDir = true) (s : σ) (go : List Visit → Tour σ) : f.tour root s go = go (f.visits root) := by
  rw [tour, f.requireDir_ok h he hd]
  rfl

/-- A walk is refused before its first visit, or it makes its visits and answers well. -/
theorem walk_cases (f : Fixture) (root : String) {σ : Type} (visitor : Visitor σ) (s : σ) :
    (f.walkUntil root visitor s = f.walk root visitor s ∧ (f.walk root visitor s).visits = [] ∧
      ∃ fault, (f.walk root visitor s).answer.result = .error fault) ∨
    ((f.walk root visitor s).visits ≠ [] ∧ (f.walk root visitor s).answer.result = .ok () ∧
      (visitor.Consents s (f.walk root visitor s).visits ∧ f.walkUntil root visitor s = f.walk root visitor s ∨
        ∃ before v fault, (f.walk root visitor s).CutAt visitor s before v fault (f.walkUntil root visitor s))) := by
  rcases f.enterable_or_barred root with ⟨e, hg, he, hd⟩ | ⟨fault, hb⟩
  · right
    have hwhole : f.walk root visitor s = .full visitor s (f.visits root) := tour_enterable hg he hd s _
    have hpart : f.walkUntil root visitor s = .cut visitor s (f.visits root) := tour_enterable hg he hd s _
    rw [hwhole, hpart]
    refine ⟨visits_ne_nil hg, rfl, ?_⟩
    rcases Visitor.consents_or_stopsAt visitor s (f.visits root) with hc | ⟨before, v, fault, hs⟩
    · exact Or.inl ⟨hc, Tour.cut_of_consents hc⟩
    · exact Or.inr ⟨before, v, fault, Tour.cutAt_of_stopsAt hs⟩
  · left
    rw [walk, walkUntil, tour_barred hb, tour_barred hb]
    exact ⟨rfl, rfl, fault, rfl⟩

theorem walkUntil_refused_iff (f : Fixture) (root : String) {σ : Type} (visitor : Visitor σ) (s : σ)
    (fault : Fault) :
    ((f.walkUntil root visitor s).visits = [] ∧ (f.walkUntil root visitor s).answer.result = .error fault) ↔
      ((f.walk root visitor s).visits = [] ∧ (f.walk root visitor s).answer.result = .error fault) := by
  rcases walk_cases f root visitor s with ⟨heq, -⟩ | ⟨hne, -, ⟨-, heq⟩ | ⟨before, v, _, hcut⟩⟩
  · rw [heq]
  · rw [heq]
  · have hpart : (f.walkUntil root visitor s).visits ≠ [] := by
      rw [hcut.visits]
      exact List.append_ne_nil_of_right_ne_nil _ (List.cons_ne_nil v [])
    exact ⟨fun h => absurd h.1 hpart, fun h => absurd h.1 hne⟩

/-- The walk that listens to the visitor is the walk that does not, or it is cut behind the first visit that is
answered with a fault. -/
theorem walkUntil_eq_walk_cut (f : Fixture) (root : String) {σ : Type} (visitor : Visitor σ) (s : σ) :
    let whole := f.walk root visitor s
    let part := f.walkUntil root visitor s
    (∀ fault, (part.visits = [] ∧ part.answer.result = .error fault) ↔
      (whole.visits = [] ∧ whole.answer.result = .error fault)) ∧
    (whole.visits = [] → (∃ fault, whole.answer.result = .error fault) ∧ part = whole) ∧
    (whole.visits ≠ [] → whole.answer.result = .ok () ∧
      (visitor.Consents s whole.visits ∧ part = whole ∨
        ∃ before v fault, whole.CutAt visitor s before v fault part)) ∧
    ((∀ s v, (visitor s v).2 = none) → part = whole) := by
  intro whole part
  have hcases := walk_cases f root visitor s
  refine ⟨walkUntil_refused_iff f root visitor s, fun hnil => ?_, fun hne => ?_, fun hall => ?_⟩
  · rcases hcases with ⟨heq, -, hfault⟩ | ⟨hne, -⟩
    · exact ⟨hfault, heq⟩
    · exact absurd hnil hne
  · rcases hcases with ⟨-, hnil, -⟩ | ⟨-, h⟩
    · exact absurd hnil hne
    · exact h
  · rcases hcases with ⟨heq, -⟩ | ⟨-, -, ⟨-, heq⟩ | ⟨before, v, fault, hcut⟩⟩
    · exact heq
    · exact heq
    · have hstop := hcut.stopsAt.stops
      rw [hall] at hstop
      cases hstop

/-- A visitor that counts its visits and stops at the third. The injected error of the second is handed over and
stops nothing, and the fourth path is not visited. -/
theorem walkUntil_eq_walk_cut_counting :
    let f := ofSpecs ["/a [b (err=no), c, d]"]
    let visitor : Visitor Nat := fun n v => (n + 1, if n = 2 then some (.injected v.path) else none)
    (f.walk "/a" visitor 0).visits.map (·.path) = ["/a", "/a/b", "/a/c", "/a/d"] ∧
      (f.walkUntil "/a" visitor 0).visits.map (·.path) = ["/a", "/a/b", "/a/c"] ∧
      ∃ before v fault, (f.walk "/a" visitor 0).CutAt visitor 0 before v fault (f.walkUntil "/a" visitor 0) := by
  intro f visitor
  have hpaths : (f.walk "/a" visitor 0).visits.map (·.path) = ["/a", "/a/b", "/a/c", "/a/d"] := by decide
  have hne : (f.walk "/a" visitor 0).visits ≠ [] := by
    intro h
    rw [h] at hpaths
    cases hpaths
  refine ⟨hpaths, by decide, ?_⟩
  rcases ((walkUntil_eq_walk_cut f "/a" visitor 0).2.2.1 hne).2 with ⟨hc, -⟩ | hcut
  · have hthird : some (.injected "/a/c") ∈ visitor.answers 0 (f.walk "/a" visitor 0).visits := by decide
    cases hc _ hthird
  · exact hcut

end Fixture
end FileFixture
