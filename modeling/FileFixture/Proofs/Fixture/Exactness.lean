import FileFixture.Proofs.Fixture.Tour
import FileFixture.Proofs.Text.ByteOrder

/-!
What a walk visits and what a listing contains, for any stored paths, in normal form or not. A walk comes to the paths
at its root and below it, in the order of their bytes and so to each path before those below it. A listing has the
paths that are the directory's with a slash and one name behind it, unless one of them has an injected error.
-/
namespace FileFixture

/-- A walk that has come to an end before the visitor was called. -/
structure Tour.Refused {σ : Type} (t : Tour σ) (s : σ) (fault : Fault) : Prop where
  result : t.answer.result = .error fault
  visits : t.visits = []
  state : t.state = s

namespace Fixture

variable (f : Fixture)

/-- One visit for each stored path at the root of the walk or below it. It hands over the entry, or the error that
speaks for it. -/
structure VisitsOf (root : String) (visits : List Visit) : Prop where
  mem_iff : ∀ v, v ∈ visits ↔ Path.isWithin v.path root = true ∧ ∃ e, f.get? v.path = some e ∧
    v.outcome = match e.error with
      | some message => .error (.injected message)
      | none => .ok e
  ascending : visits.Pairwise fun v w => Text.bytes v.path < Text.bytes w.path
  root_first : visits.head?.map (·.path) = some root
  ancestors_first : visits.Pairwise fun v w => Path.isWithin v.path w.path = false

theorem visits_ascending (root : String) : (f.visits root).Pairwise fun v w => v.path < w.path :=
  List.pairwise_map.mpr (f.subtree_ascending root)

variable {f} {root dir : String}

/-- Of all paths in the subtree its root is the least, so it is visited first. -/
theorem head?_visits {e : Entry} (h : f.get? root = some e) : (f.visits root).head?.map (·.path) = some root := by
  have hroot := root_mem_visits h
  have hasc := f.visits_ascending root
  cases hv : f.visits root with
  | nil => exact absurd hv (visits_ne_nil h)
  | cons v rest =>
    have hwithin : Path.isWithin v.path root = true := (mem_visits.mp (hv ▸ List.mem_cons_self)).1
    rw [hv] at hroot hasc
    rcases List.mem_cons.mp hroot with rfl | hm
    · rfl
    · exact absurd ((List.pairwise_cons.mp hasc).1 _ hm) (Path.not_lt_of_isWithin hwithin)

theorem visitsOf_visits {e : Entry} (h : f.get? root = some e) : f.VisitsOf root (f.visits root) where
  mem_iff := fun _ => mem_visits
  ascending := (f.visits_ascending root).imp Text.bytes_lt_of_lt
  root_first := head?_visits h
  ancestors_first := (f.visits_ascending root).imp fun hlt =>
    Bool.eq_false_iff.mpr fun hw => Path.not_lt_of_isWithin hw hlt

theorem walk_refused {fault : Fault} (h : f.Barred root fault) {σ : Type} (visitor : Visitor σ) (s : σ) :
    (f.walk root visitor s).Refused s fault := by
  rw [walk, tour_barred h]
  exact ⟨rfl, rfl, rfl⟩

/-- A walk is refused, for the first reason that there is, or it visits the root and everything below it and answers
well, whatever the visitor says to it. -/
theorem walk_exact (f : Fixture) (root : String) {σ : Type} (visitor : Visitor σ) (s : σ) :
    let t := f.walk root visitor s
    (f.get? root = none → t.Refused s (.notFound root)) ∧
    ∀ e, f.get? root = some e →
      (∀ message, e.error = some message → t.Refused s (.injected message)) ∧
      (e.error = none → e.isDir = false → t.Refused s (.notADirectory root)) ∧
      (e.error = none → e.isDir = true →
        t.answer.result = .ok () ∧ t.state = visitor.after s t.visits ∧ f.VisitsOf root t.visits) := by
  intro t
  refine ⟨fun h => walk_refused (.missing h) visitor s, fun e h => ⟨fun message he => ?_, fun he hd => ?_,
    fun he hd => ?_⟩⟩
  · exact walk_refused (.injected h he) visitor s
  · exact walk_refused (.notADirectory h he hd) visitor s
  · have ht : t = .full visitor s (f.visits root) := tour_enterable h he hd s _
    rw [ht]
    exact ⟨rfl, rfl, visitsOf_visits h⟩

/-- Three of the keys are not in normal form. Between `/r/a` and what lies below it stands its sibling `/r/a-b`, and the
visitor asks in vain to stop. -/
theorem walk_exact_beside :
    let raw (path : String) : Entry := { Entry.dir "" with path }
    let f := (ofSpecs ["/r/a/z", "/r/a-b (err=no)"]).extend [raw "r", raw "/r//", raw "/r/a/"]
    let t := f.walk "/r" (fun (n : Nat) _ => (n + 1, some (.injected "stop"))) 0
    t.answer.result = .ok () ∧ t.state = 6 ∧
      t.visits.map (·.path) = ["/r", "/r//", "/r/a", "/r/a-b", "/r/a/", "/r/a/z"] ∧ f.VisitsOf "/r" t.visits := by
  intro raw f t
  have hroot : f.get? "/r" = some { Entry.dir "r" with path := "/r" } := by decide
  obtain ⟨hresult, hstate, hvisits⟩ := ((walk_exact f "/r" _ 0).2 _ hroot).2.2 rfl rfl
  exact ⟨hresult, by decide, by decide, hvisits⟩

variable (f) in
/-- The stored entries at the paths of names in a directory, in the order of these paths. -/
structure ChildrenOf (dir : String) (bs : List (String × Entry)) : Prop where
  mem_iff : ∀ key e, (key, e) ∈ bs ↔
    f.get? key = some e ∧ ∃ name, (name ≠ "" ∧ '/' ∉ name.toList) ∧ key = Path.childPath dir name
  ascending : bs.Pairwise fun a b => Text.bytes a.1 < Text.bytes b.1

variable (f dir) in
theorem childrenOf_childBindings : f.ChildrenOf dir (f.childBindings dir) where
  mem_iff := fun key e => by simp only [mem_childBindings, Path.childName_eq_some_iff_childPath]
  ascending := (f.childBindings_ascending dir).imp Text.bytes_lt_of_lt

namespace ChildrenOf

variable {bs : List (String × Entry)}

theorem exists_childName (h : f.ChildrenOf dir bs) {b : String × Entry} (hb : b ∈ bs) :
    ∃ name, Path.childName b.1 dir = some name := by
  obtain ⟨-, name, hname⟩ := (h.mem_iff b.1 b.2).mp hb
  exact ⟨name, Path.childName_eq_some_iff_childPath.mpr hname⟩

theorem notMem_of_childName_eq_none (h : f.ChildrenOf dir bs) {key : String} (hkey : Path.childName key dir = none) :
    key ∉ bs.map (·.1) := by
  intro hm
  obtain ⟨b, hb, rfl⟩ := List.mem_map.mp hm
  obtain ⟨name, hname⟩ := h.exists_childName hb
  rw [hkey] at hname
  cases hname

/-- No two children have the same name. -/
theorem nodup_names (h : f.ChildrenOf dir bs) : (bs.map fun b => Path.childName b.1 dir).Nodup := by
  refine List.pairwise_map.mpr (h.ascending.imp_of_mem fun {a b} ha _ hlt he => ?_)
  obtain ⟨name, hname⟩ := h.exists_childName ha
  have hkeys : a.1 = b.1 := Path.childName_inj hname (he ▸ hname)
  rw [hkeys] at hlt
  exact List.lt_irrefl _ hlt

end ChildrenOf

/-- A listing is refused, for the first reason that there is, or by the first child with an injected error, or it has
all children. Their names are all different, so that none is left out for the sake of another, and neither the root nor
a path that begins alike nor one further down is among them. -/
theorem list_exact (f : Fixture) (dir : String) :
    let bs := f.childBindings dir
    (f.ChildrenOf dir bs ∧ (bs.map fun b => Path.childName b.1 dir).Nodup ∧ Path.root ∉ bs.map (·.1) ∧
      (∀ text, dir ≠ Path.root → text.toList.head? ≠ some '/' → dir ++ text ∉ bs.map (·.1)) ∧
      ∀ text, '/' ∈ text.toList → Path.childPath dir text ∉ bs.map (·.1)) ∧
    (f.get? dir = none → (f.list dir).result = .error (.notFound dir)) ∧
    ∀ e, f.get? dir = some e →
      (∀ message, e.error = some message → (f.list dir).result = .error (.injected message)) ∧
      (e.error = none → e.isDir = false → (f.list dir).result = .error (.notADirectory dir)) ∧
      (e.error = none → e.isDir = true →
        (f.list dir).result = match bs.findSome? fun b => b.2.error with
          | some message => .error (.injected message)
          | none => .ok (bs.map (·.2))) := by
  intro bs
  have hc : f.ChildrenOf dir bs := f.childrenOf_childBindings dir
  refine ⟨⟨hc, hc.nodup_names, ?_, fun text hdir htext => ?_, fun text htext => ?_⟩,
    fun h => list_barred (.missing h), fun e h => ⟨fun message he => list_barred (.injected h he),
      fun he hd => list_barred (.notADirectory h he hd), fun he hd => ?_⟩⟩
  · intro hm
    obtain ⟨b, hb, hroot⟩ := List.mem_map.mp hm
    obtain ⟨name, hname⟩ := hc.exists_childName hb
    exact Path.ne_root_of_childName hname hroot
  · exact hc.notMem_of_childName_eq_none (Path.childName_append_of_ne hdir htext)
  · exact hc.notMem_of_childName_eq_none (Path.childName_childPath_of_mem htext)
  · exact (list_result h he hd).trans (gather_result bs)

/-- Of two erroneous children the first in the order of paths speaks, not the first to be declared. Neither the keys
that end in a slash or have two of them in a row are children, nor is the directory beside `/d`. -/
theorem list_exact_erroneous :
    let raw (path : String) : Entry := { Entry.dir "" with path }
    let f := (ofSpecs ["/d [c (err=late), a, b (err=early)] / s [x]", "/d-e"]).extend [raw "/d/", raw "/d//x"]
    (f.childBindings "/d").map (·.1) = ["/d/a", "/d/b", "/d/c", "/d/s"] ∧
      (f.list "/d").result = .error (.injected "early") ∧
      (f.list "/").result = .ok [{ Entry.dir "d" with path := "/d" }, { Entry.dir "d-e" with path := "/d-e" }] ∧
      (f.list "/d/a").result = .error (.notADirectory "/d/a") := by
  intro raw f
  have hroot : f.get? "/" = some Entry.root := by decide
  have hdir : f.get? "/d" = some { Entry.dir "d" with path := "/d" } := by decide
  have hfile : f.get? "/d/a" = some { Entry.file "a" with path := "/d/a" } := by decide
  have hearly : (f.childBindings "/d").findSome? (fun b => b.2.error) = some "early" := by decide
  have hnone : (f.childBindings "/").findSome? (fun b => b.2.error) = none := by decide
  have hlist := ((list_exact f "/d").2.2 _ hdir).2.2 rfl rfl
  have hlistRoot := ((list_exact f "/").2.2 _ hroot).2.2 rfl rfl
  rw [hearly] at hlist
  rw [hnone] at hlistRoot
  exact ⟨by decide, hlist, hlistRoot.trans (by decide), ((list_exact f "/d/a").2.2 _ hfile).2.1 rfl rfl⟩

end Fixture
end FileFixture
