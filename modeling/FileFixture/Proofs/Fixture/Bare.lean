import FileFixture.Fixture.Edit
import FileFixture.Proofs.Fixture.Tour

/-!
Content and mode decide nothing. A query of a fixture whose entries have lost them is the query of the fixture
itself, up to the content and the mode of the entries that it hands over: it is refused for the same reason,
leaves the same records, and lists and visits the same paths in the same order.
-/
namespace FileFixture

/-- The entry without content and mode. -/
def Entry.bare (e : Entry) : Entry := { e with content := none, mode := 0 }

@[simp] theorem Entry.bare_bare (e : Entry) : e.bare.bare = e.bare := rfl
@[simp] theorem Entry.bare_error (e : Entry) : e.bare.error = e.error := rfl
@[simp] theorem Entry.bare_isDir (e : Entry) : e.bare.isDir = e.isDir := rfl
@[simp] theorem Entry.bare_fault? (e : Entry) : e.bare.fault? = e.fault? := rfl

theorem Entry.bare_outcome (e : Entry) : e.bare.outcome = e.outcome.map Entry.bare := by
  unfold Entry.outcome
  rw [Entry.bare_error]
  cases e.error <;> rfl

def Visit.bare (v : Visit) : Visit := ⟨v.path, v.outcome.map Entry.bare⟩

@[simp] theorem Visit.bare_bare (v : Visit) : v.bare.bare = v.bare := by
  obtain ⟨path, outcome⟩ := v
  cases outcome <;> rfl

@[simp] theorem Visit.bare_records (v : Visit) : v.bare.records = v.records := by
  obtain ⟨path, outcome⟩ := v
  cases outcome <;> rfl

def Tour.bare {σ : Type} (t : Tour σ) : Tour σ := { t with visits := t.visits.map Visit.bare }

/-- A visitor that does not look at content and mode. -/
def Visitor.Blind {σ : Type} (visitor : Visitor σ) : Prop := ∀ s v w, v.bare = w.bare → visitor s v = visitor s w

namespace Answer

variable {α β γ : Type}

theorem map_bind (a : Answer α) (g : α → β) (next : β → Answer γ) :
    (a.map g).bind next = a.bind fun x => next (g x) := by
  obtain ⟨result, records⟩ := a
  cases result <;> rfl

theorem bind_map (a : Answer α) (next : α → Answer β) (g : β → γ) :
    (a.bind next).map g = a.bind fun x => (next x).map g := by
  obtain ⟨result, records⟩ := a
  cases result <;> rfl

theorem map_map (a : Answer α) (g : α → β) (h : β → γ) : (a.map g).map h = a.map fun x => h (g x) := by
  obtain ⟨result, records⟩ := a
  cases result <;> rfl

end Answer

namespace Tour

variable {σ : Type} {visitor : Visitor σ}

theorem full_bare (hv : visitor.Blind) (s : σ) (visits : List Visit) :
    full visitor s (visits.map Visit.bare) = (full visitor s visits).bare := by
  have hstep : ∀ (s : σ) (v : Visit), (visitor s v.bare).1 = (visitor s v).1 := fun s v => by
    rw [hv s v.bare v v.bare_bare]
  rw [full, full, List.foldl_map, List.flatMap_map]
  simp only [hstep, Visit.bare_records]
  rfl

theorem cut_bare (hv : visitor.Blind) (s : σ) (visits : List Visit) :
    cut visitor s (visits.map Visit.bare) = (cut visitor s visits).bare := by
  induction visits generalizing s with
  | nil => rfl
  | cons v visits ih =>
    have hstep : visitor s v.bare = visitor s v := hv s v.bare v v.bare_bare
    rw [List.map_cons]
    cases hs : (visitor s v).2 with
    | some fault =>
      have hs' : (visitor s v.bare).2 = some fault := hstep ▸ hs
      rw [cut_cons_stop hs, cut_cons_stop hs', hstep, Visit.bare_records]
      rfl
    | none =>
      have hs' : (visitor s v.bare).2 = none := hstep ▸ hs
      rw [cut_cons_consent hs, cut_cons_consent hs', hstep, ih, Visit.bare_records]
      rfl

end Tour

def Catalog.map {α β : Type} (g : α → β) (c : Catalog α) : Catalog β :=
  ⟨c.bindings.map fun b => (b.1, g b.2), List.pairwise_map.mpr c.ascending⟩

theorem Catalog.get?_map {α β : Type} (g : α → β) (c : Catalog α) (key : String) :
    (c.map g).get? key = (c.get? key).map g := by
  obtain ⟨bs, hbs⟩ := c
  simp only [get?, map]
  clear hbs
  induction bs with
  | nil => rfl
  | cons b bs ih =>
    rw [List.map_cons, find?_cons, find?_cons, ih]
    split <;> rfl

namespace Fixture

def bare (f : Fixture) : Fixture := { f with entries := f.entries.map Entry.bare }

variable (f : Fixture)

theorem get?_bare (path : String) : f.bare.get? path = (f.get? path).map Entry.bare :=
  Catalog.get?_map Entry.bare f.entries path

theorem lookup_bare (op path : String) : f.bare.lookup op path = (f.lookup op path).map Entry.bare := by
  rw [lookup, lookup, get?_bare]
  cases f.get? path with
  | none => rfl
  | some e =>
    rw [Option.map_some]
    dsimp only
    rw [Entry.bare_fault?]
    cases e.fault? <;> rfl

theorem requireDir_bare (op path : String) : f.bare.requireDir op path = (f.requireDir op path).map Entry.bare := by
  rw [requireDir, requireDir, lookup_bare, Answer.map_bind, Answer.bind_map]
  congr
  funext e
  rw [Entry.bare_isDir]
  split <;> rfl

theorem filter_bare (p : String → Bool) :
    f.bare.entries.bindings.filter (fun b => p b.1) =
      (f.entries.bindings.filter fun b => p b.1).map fun b => (b.1, b.2.bare) := List.filter_map

theorem gather_bare (bs : List (String × Entry)) :
    gather (bs.map fun b => (b.1, b.2.bare)) = (gather bs).map (List.map Entry.bare) := by
  induction bs with
  | nil => rfl
  | cons b bs ih =>
    obtain ⟨key, e⟩ := b
    rw [List.map_cons, gather_cons, gather_cons, ih, Entry.bare_fault?]
    cases e.fault? with
    | some fault => rfl
    | none =>
      dsimp only
      rw [Answer.map_map, Answer.map_map]
      rfl

theorem list_bare (dir : String) : f.bare.list dir = (f.list dir).map (List.map Entry.bare) := by
  have hc : f.bare.childBindings dir = (f.childBindings dir).map fun b => (b.1, b.2.bare) :=
    f.filter_bare fun key => (Path.childName key dir).isSome
  rw [list_eq_gather, list_eq_gather, requireDir_bare, Answer.map_bind, Answer.bind_map, hc, gather_bare]
  congr
  funext e
  rw [Answer.map_bind, Answer.bind_map]
  rfl

theorem visits_bare (root : String) : f.bare.visits root = (f.visits root).map Visit.bare := by
  have hs : f.bare.subtree root = (f.subtree root).map fun b => (b.1, b.2.bare) := by
    rw [subtree_eq_filter, subtree_eq_filter]
    exact f.filter_bare fun key => Path.isWithin key root
  rw [visits, visits, hs, List.map_map, List.map_map]
  refine List.map_congr_left fun b _ => ?_
  exact congrArg (Visit.mk b.1) b.2.bare_outcome

section Walks

variable (root : String) {σ : Type} {visitor : Visitor σ} (s : σ)

theorem tour_bare {go go' : List Visit → Tour σ} (h : ∀ visits, go' (visits.map Visit.bare) = (go visits).bare) :
    f.bare.tour root s go' = (f.tour root s go).bare := by
  rw [tour, tour, requireDir_bare, visits_bare]
  obtain ⟨result, records⟩ := f.requireDir "walk" root
  cases result with
  | error fault => rfl
  | ok e => exact h _

theorem walk_bare (hv : visitor.Blind) : f.bare.walk root visitor s = (f.walk root visitor s).bare :=
  f.tour_bare root s (Tour.full_bare hv s)

theorem walkUntil_bare (hv : visitor.Blind) : f.bare.walkUntil root visitor s = (f.walkUntil root visitor s).bare :=
  f.tour_bare root s (Tour.cut_bare hv s)

/-- A walk that does not listen to its visitor makes the same visits and answers the same whoever visits. -/
theorem walk_visits_and_answer {τ : Type} (visitor : Visitor σ) (visitor' : Visitor τ) (s' : τ) :
    (f.walk root visitor s).visits = (f.walk root visitor' s').visits ∧
      (f.walk root visitor s).answer = (f.walk root visitor' s').answer := by
  rw [walk, walk, tour, tour]
  cases (f.requireDir "walk" root).result <;> exact ⟨rfl, rfl⟩

end Walks

theorem bare_edit (path : String) {d : Edit} (h : ∀ e : Entry, (e.edit d).bare = e.bare) :
    (f.edit path d).bare = f.bare := by
  have hb : ∀ b ∈ f.entries.bindings, (b.1, (if b.1 = path then b.2.edit d else b.2).bare) = (b.1, b.2.bare) := by
    intro b _
    split
    case isTrue => rw [h]
    case isFalse => rfl
  have he : (f.edit path d).entries.map Entry.bare = f.entries.map Entry.bare := by
    apply Catalog.ext
    exact (List.map_map).trans (List.map_congr_left hb)
  rw [bare, he]
  rfl

/-- Queries at a path are refused alike, for the same reasons and with the same records, they list and visit the
same paths, and what they hand over is the same but for content and mode. -/
structure AlikeUpToContent (f g : Fixture) (path : String) : Prop where
  stat : (f.stat path).map Entry.bare = (g.stat path).map Entry.bare
  content : (f.content path).map (fun _ => ()) = (g.content path).map fun _ => ()
  list : (f.list path).map (List.map Entry.bare) = (g.list path).map (List.map Entry.bare)
  walk : ∀ {σ : Type} (visitor : Visitor σ) (s : σ),
    (f.walk path visitor s).visits.map Visit.bare = (g.walk path visitor s).visits.map Visit.bare ∧
      (f.walk path visitor s).answer = (g.walk path visitor s).answer
  walkUntil : ∀ {σ : Type} (visitor : Visitor σ) (s : σ), visitor.Blind →
    (f.walkUntil path visitor s).bare = (g.walkUntil path visitor s).bare
  refused : ∀ {σ : Type} (visitor : Visitor σ) (s : σ) (fault : Fault),
    ((f.walkUntil path visitor s).visits = [] ∧ (f.walkUntil path visitor s).answer.result = .error fault) ↔
      ((g.walkUntil path visitor s).visits = [] ∧ (g.walkUntil path visitor s).answer.result = .error fault)

variable {f}

theorem walk_alike_of_bare_eq {g : Fixture} (h : f.bare = g.bare) (path : String) {σ : Type} (visitor : Visitor σ)
    (s : σ) :
    (f.walk path visitor s).visits.map Visit.bare = (g.walk path visitor s).visits.map Visit.bare ∧
      (f.walk path visitor s).answer = (g.walk path visitor s).answer := by
  -- Whoever visits may look at content and mode, but this walk does not listen: an onlooker may stand in.
  let onlooker : Visitor Unit := fun s _ => (s, none)
  have hblind : onlooker.Blind := fun _ _ _ _ => rfl
  have ht : (f.walk path onlooker ()).bare = (g.walk path onlooker ()).bare := by
    rw [← walk_bare _ _ _ hblind, ← walk_bare _ _ _ hblind, h]
  obtain ⟨hfv, hfa⟩ := f.walk_visits_and_answer path s visitor onlooker ()
  obtain ⟨hgv, hga⟩ := g.walk_visits_and_answer path s visitor onlooker ()
  have hvisits := congrArg Tour.visits ht
  have hanswer := congrArg Tour.answer ht
  rw [hfv, hfa, hgv, hga]
  exact ⟨hvisits, hanswer⟩

theorem alikeUpToContent_of_bare_eq {g : Fixture} (h : f.bare = g.bare) (path : String) :
    AlikeUpToContent f g path where
  stat := by
    rw [stat, stat, ← lookup_bare, ← lookup_bare, h]
  content := by
    have hl : ∀ f : Fixture, (f.content path).map (fun _ => ()) =
        ((f.lookup "read_file" path).map Entry.bare).map fun _ => () := by
      intro f
      rw [content, Answer.map_map, Answer.map_map]
    rw [hl, hl, ← lookup_bare, ← lookup_bare, h]
  list := by
    rw [← list_bare, ← list_bare, h]
  walk := walk_alike_of_bare_eq h path
  walkUntil := by
    intro σ visitor s hv
    rw [← walkUntil_bare _ _ _ hv, ← walkUntil_bare _ _ _ hv, h]
  refused := by
    intro σ visitor s fault
    obtain ⟨hvisits, hanswer⟩ := walk_alike_of_bare_eq h path visitor s
    rw [walkUntil_refused_iff, walkUntil_refused_iff, ← List.map_eq_nil_iff (f := Visit.bare), hvisits, hanswer,
      List.map_eq_nil_iff]

end Fixture
end FileFixture
