import FileFixture.Fixture.Walk
import FileFixture.Proofs.Catalog
import FileFixture.Proofs.Fixture.Listing

/-!
What a query looks at. A listing depends on the entry of the directory and on the bindings of its children, a
walk on the entry and on the bindings below it. Both selections are filters of the bindings: no two children
have the same name, and in the order of paths everything below a directory stands in one run.
-/
namespace FileFixture

theorem filter_dropWhile {α : Type} {p r : α → Bool} {l : List α} (h : ∀ a ∈ l, r a = true → p a = false) :
    (l.dropWhile r).filter p = l.filter p := by
  induction l with
  | nil => rfl
  | cons a l ih =>
    obtain ⟨ha, hl⟩ := List.forall_mem_cons.mp h
    rw [List.dropWhile_cons]
    split
    case isTrue hr => rw [ih hl, List.filter_cons_of_neg (by simp [ha hr])]
    case isFalse => rfl

/-- A test that fails everywhere behind the end of a run finds everything in the run. -/
theorem filter_takeWhile {α : Type} {p q : α → Bool} {l : List α} (hq : ∀ a ∈ l, p a = true → q a = true)
    (hrun : l.Pairwise fun a b => p b = true → q a = true) : (l.takeWhile q).filter p = l.filter p := by
  induction l with
  | nil => rfl
  | cons a l ih =>
    obtain ⟨ha, hl⟩ := List.forall_mem_cons.mp hq
    obtain ⟨hab, hrun⟩ := List.pairwise_cons.mp hrun
    rw [List.takeWhile_cons]
    split
    case isTrue => rw [List.filter_cons, List.filter_cons, ih hl hrun]
    case isFalse hn =>
      have hnone : ∀ b ∈ a :: l, ¬p b = true := by
        intro b hb hp
        rcases List.mem_cons.mp hb with rfl | hb
        · exact hn (ha hp)
        · exact hn (hab b hb hp)
      rw [List.filter_nil, List.filter_eq_nil_iff.mpr hnone]

namespace Catalog

variable {α : Type}

/-- Where two catalogs have the same values, they have the same bindings. -/
theorem filter_bindings_congr {c d : Catalog α} {p : String → Bool}
    (h : ∀ key, p key = true → c.get? key = d.get? key) :
    c.bindings.filter (fun b => p b.1) = d.bindings.filter fun b => p b.1 := by
  have hmem : ∀ b, b ∈ c.bindings.filter (fun b => p b.1) ↔ b ∈ d.bindings.filter fun b => p b.1 := by
    rintro ⟨key, a⟩
    rw [List.mem_filter, List.mem_filter, ← get?_eq_some_iff, ← get?_eq_some_iff]
    constructor
    · rintro ⟨hg, hp⟩
      exact ⟨h key hp ▸ hg, hp⟩
    · rintro ⟨hg, hp⟩
      exact ⟨h key hp ▸ hg, hp⟩
  have hc := c.ascending.sublist (List.filter_sublist (p := fun b => p b.1))
  have hd := d.ascending.sublist (List.filter_sublist (p := fun b => p b.1))
  have hne : ∀ {a b : String × α}, a.1 < b.1 → a ≠ b := by
    rintro a b hlt rfl
    exact String.lt_irrefl _ hlt
  have hperm := (List.perm_ext_iff_of_nodup (hc.imp hne) (hd.imp hne)).mpr hmem
  exact hperm.eq_of_pairwise (fun a b _ _ hab hba => absurd (String.lt_trans hab hba) (String.lt_irrefl _)) hc hd

theorem not_lt_of_mem_bindingsFrom {c : Catalog α} {key : String} :
    ∀ b ∈ c.bindingsFrom key, ¬b.1 < key := by
  obtain ⟨bs, hbs⟩ := c
  unfold bindingsFrom
  dsimp only
  induction bs with
  | nil => exact fun b hb => absurd hb List.not_mem_nil
  | cons a bs ih =>
    obtain ⟨ha, hbs⟩ := List.pairwise_cons.mp hbs
    rw [List.dropWhile_cons]
    split
    case isTrue => exact ih hbs
    case isFalse hn =>
      intro b hb hlt
      rw [decide_eq_true_iff] at hn
      rcases List.mem_cons.mp hb with rfl | hb
      · exact hn hlt
      · exact hn (String.lt_trans (ha b hb) hlt)

end Catalog

/-- How a record words the decision that was made for this reason. -/
def Fault.decision : Fault → String
  | .notFound _ => "return not found"
  | .notADirectory _ => "return not a directory"
  | _ => Fixture.presetError

namespace Fixture

variable (f : Fixture)

/-- Why a path is no directory that can be entered, the first reason that applies. -/
inductive Barred (path : String) : Fault → Prop
  | missing : f.get? path = none → Barred path (.notFound path)
  | injected {e : Entry} {message : String} : f.get? path = some e → e.error = some message →
      Barred path (.injected message)
  | notADirectory {e : Entry} : f.get? path = some e → e.error = none → e.isDir = false →
      Barred path (.notADirectory path)

theorem lookup_eq (op path : String) :
    f.lookup op path = match f.get? path with
      | none => .refuse op "return not found" path (.notFound path)
      | some e => match e.error with
        | none => .ok e
        | some message => .refuse op presetError path (.injected message) := by
  unfold lookup Entry.fault?
  cases f.get? path with
  | none => rfl
  | some e => cases he : e.error <;> simp [he]

theorem requireDir_ok {path : String} {e : Entry} (h : f.get? path = some e) (he : e.error = none)
    (hd : e.isDir = true) (op : String) : f.requireDir op path = .ok e := by
  rw [requireDir, lookup_eq, h]
  simp only [he, Answer.bind_ok, hd, if_true]

theorem requireDir_barred {path : String} {fault : Fault} (h : f.Barred path fault) (op : String) :
    f.requireDir op path = .refuse op fault.decision path fault := by
  rw [requireDir, lookup_eq]
  cases h with
  | missing h => simp only [h, Answer.bind_refuse, Fault.decision]
  | injected h he => simp only [h, he, Answer.bind_refuse, Fault.decision]
  | notADirectory h he hd =>
    simp only [h, he, hd, Answer.bind_ok, Bool.false_eq_true, if_false, Fault.decision]

/-- Every path is a directory that can be entered, or there is a reason why not. -/
theorem enterable_or_barred (path : String) :
    (∃ e, f.get? path = some e ∧ e.error = none ∧ e.isDir = true) ∨ ∃ fault, f.Barred path fault := by
  cases hg : f.get? path with
  | none => exact Or.inr ⟨_, .missing hg⟩
  | some e =>
    cases he : e.error with
    | some message => exact Or.inr ⟨_, .injected hg he⟩
    | none =>
      cases hd : e.isDir with
      | false => exact Or.inr ⟨_, .notADirectory hg he hd⟩
      | true => exact Or.inl ⟨e, rfl, he, hd⟩

/-- The subtree has all bindings at the root of it and below, and no others. -/
theorem subtree_eq_filter (root : String) :
    f.subtree root = f.entries.bindings.filter fun b => Path.isWithin b.1 root := by
  have hfrom : ∀ b ∈ f.entries.bindings, decide (b.1 < root) = true → Path.isWithin b.1 root = false := by
    intro b _ hlt
    rw [← Bool.not_eq_true]
    exact fun hw => Path.not_lt_of_isWithin hw (of_decide_eq_true hlt)
  have hsorted : (f.entries.bindingsFrom root).Pairwise fun a b => a.1 < b.1 :=
    f.entries.ascending.sublist (List.dropWhile_sublist _)
  rw [subtree, filter_takeWhile, Catalog.bindingsFrom, filter_dropWhile hfrom]
  · intro b _ hw
    exact List.isPrefixOf_iff_prefix.mpr (Path.prefix_of_isWithin hw)
  · refine hsorted.imp_of_mem fun {a b} ha _ hlt hw => ?_
    exact List.isPrefixOf_iff_prefix.mpr
      (Path.prefix_of_between (Path.prefix_of_isWithin hw) (Catalog.not_lt_of_mem_bindingsFrom a ha) hlt)

theorem subtree_ascending (root : String) : (f.subtree root).Pairwise fun a b => a.1 < b.1 := by
  rw [subtree_eq_filter]
  exact f.entries.ascending.sublist List.filter_sublist

/-- The paths that a walk visits. -/
def pathsWithin (root : String) : List String := (f.subtree root).map (·.1)

theorem visits_map_path (root : String) : (f.visits root).map (·.path) = f.pathsWithin root := by
  rw [visits, pathsWithin, List.map_map]
  rfl

section Membership

variable {f} {root key : String} {e : Entry}

theorem mem_subtree : (key, e) ∈ f.subtree root ↔ f.get? key = some e ∧ Path.isWithin key root = true := by
  rw [subtree_eq_filter, List.mem_filter, get?, Catalog.get?_eq_some_iff]

theorem mem_visits {v : Visit} :
    v ∈ f.visits root ↔ Path.isWithin v.path root = true ∧ ∃ e, f.get? v.path = some e ∧ v.outcome = e.outcome := by
  rw [visits, List.mem_map]
  constructor
  · rintro ⟨⟨key, e⟩, hb, rfl⟩
    obtain ⟨hg, hw⟩ := mem_subtree.mp hb
    exact ⟨hw, e, hg, rfl⟩
  · rintro ⟨hw, e, hg, ho⟩
    obtain ⟨path, outcome⟩ := v
    cases ho
    exact ⟨(path, e), mem_subtree.mpr ⟨hg, hw⟩, rfl⟩

theorem root_mem_visits (h : f.get? root = some e) : ⟨root, e.outcome⟩ ∈ f.visits root :=
  mem_visits.mpr ⟨Path.isWithin_self root, e, h, rfl⟩

theorem mem_pathsWithin : key ∈ f.pathsWithin root ↔ key ∈ f.paths ∧ Path.isWithin key root = true := by
  rw [pathsWithin, List.mem_map, paths, Catalog.mem_keys_iff]
  constructor
  · rintro ⟨⟨key, e⟩, hb, rfl⟩
    obtain ⟨hg, hw⟩ := mem_subtree.mp hb
    exact ⟨⟨e, hg⟩, hw⟩
  · rintro ⟨⟨e, hg⟩, hw⟩
    exact ⟨(key, e), mem_subtree.mpr ⟨hg, hw⟩, rfl⟩

end Membership

theorem pathsWithin_nodup (root : String) : (f.pathsWithin root).Nodup := by
  refine List.pairwise_map.mpr ((f.subtree_ascending root).imp fun hlt he => ?_)
  rw [he] at hlt
  exact String.lt_irrefl _ hlt

theorem length_pathsWithin_le (root : String) : (f.pathsWithin root).length ≤ f.paths.length := by
  rw [pathsWithin, subtree_eq_filter, List.length_map, paths, Catalog.keys, List.length_map]
  exact List.length_filter_le _ _

/-- The bindings of the children of a directory in the order of their paths. -/
def childBindings (dir : String) : List (String × Entry) :=
  f.entries.bindings.filter fun b => (Path.childName b.1 dir).isSome

theorem childBindings_ascending (dir : String) : (f.childBindings dir).Pairwise fun a b => a.1 < b.1 :=
  f.entries.ascending.sublist List.filter_sublist

/-- The entries of some bindings, unless one of them has an injected error; then that of the first. -/
def gather (bs : List (String × Entry)) : Answer (List Entry) :=
  match bs.findSome? fun b => b.2.fault?.map (b.1, ·) with
  | some (key, fault) => .refuse "read_dir" presetError key fault
  | none => .ok (bs.map (·.2))

variable {f} in
theorem mem_childBindings {dir key : String} {e : Entry} :
    (key, e) ∈ f.childBindings dir ↔ f.get? key = some e ∧ ∃ name, Path.childName key dir = some name := by
  rw [childBindings, List.mem_filter, get?, Catalog.get?_eq_some_iff, Option.isSome_iff_exists]

theorem gather_cons (key : String) (e : Entry) (bs : List (String × Entry)) :
    gather ((key, e) :: bs) = match e.fault? with
      | some fault => .refuse "read_dir" presetError key fault
      | none => (gather bs).map (e :: ·) := by
  unfold gather
  cases he : e.fault? with
  | some fault => simp [he]
  | none =>
    simp only [List.findSome?_cons, he, Option.map_none]
    cases List.findSome? (fun b : String × Entry => b.2.fault?.map (b.1, ·)) bs with
    | none => rfl
    | some first => rfl

/-- No name is left out because it was seen before, since no two children have the same name. -/
theorem children_eq_gather {dir : String} {seen : List String} {bs : List (String × Entry)}
    (hlt : bs.Pairwise fun a b => a.1 < b.1)
    (hseen : ∀ b ∈ bs, ∀ name, Path.childName b.1 dir = some name → name ∉ seen) :
    children dir seen bs = gather (bs.filter fun b => (Path.childName b.1 dir).isSome) := by
  induction bs generalizing seen with
  | nil => rfl
  | cons b bs ih =>
    obtain ⟨key, e⟩ := b
    obtain ⟨hb, hbs⟩ := List.pairwise_cons.mp hlt
    obtain ⟨hkey, hseen⟩ := List.forall_mem_cons.mp hseen
    rw [children, List.filter_cons]
    cases hn : Path.childName key dir with
    | none => exact ih hbs hseen
    | some name =>
      -- A later child with this name would have the same path, and paths ascend.
      have hnew : ∀ b ∈ bs, ∀ n, Path.childName b.1 dir = some n → n ∉ name :: seen := by
        intro b hm n hb' hn'
        rcases List.mem_cons.mp hn' with rfl | hn'
        · exact String.lt_irrefl key (Path.childName_inj hb' hn ▸ hb b hm)
        · exact hseen b hm n hb' hn'
      dsimp only
      rw [if_neg (hkey name hn), Option.isSome_some, if_pos rfl, gather_cons]
      cases e.fault? with
      | some fault => exact rfl
      | none => exact congrArg (Answer.map (e :: ·)) (ih hbs hnew)

theorem list_eq_gather (dir : String) :
    f.list dir = (f.requireDir "read_dir" dir).bind fun _ =>
      (gather (f.childBindings dir)).bind fun es => ⟨.ok es, [.note "read_dir" "return entries" dir]⟩ := by
  rw [list, children_eq_gather f.entries.ascending (fun _ _ _ _ => List.not_mem_nil), childBindings]

/-- The injected errors of the entries decide, and of these the first. -/
theorem gather_result (bs : List (String × Entry)) :
    (gather bs).result = match bs.findSome? fun b => b.2.error with
      | some message => .error (.injected message)
      | none => .ok (bs.map (·.2)) := by
  induction bs with
  | nil => rfl
  | cons b bs ih =>
    obtain ⟨key, e⟩ := b
    rw [gather_cons, List.findSome?_cons, Entry.fault?]
    cases e.error with
    | some message => rfl
    | none =>
      dsimp only [Option.map_none]
      rw [Answer.map, ih]
      cases bs.findSome? fun b => b.2.error <;> rfl

section List

variable {f} {dir : String}

theorem list_barred {fault : Fault} (h : f.Barred dir fault) : (f.list dir).result = .error fault := by
  rw [list, f.requireDir_barred h]
  rfl

variable {e : Entry} (hdir : f.get? dir = some e) (herror : e.error = none) (hisDir : e.isDir = true)

include hdir herror hisDir

theorem list_result : (f.list dir).result = (gather (f.childBindings dir)).result := by
  rw [list_eq_gather, f.requireDir_ok hdir herror hisDir, Answer.bind_ok, Answer.bind]
  cases (gather (f.childBindings dir)).result <;> rfl

theorem list_clean (h : ∀ b ∈ f.childBindings dir, b.2.error = none) :
    (f.list dir).result = .ok ((f.childBindings dir).map (·.2)) := by
  rw [list_result hdir herror hisDir, gather_result, List.findSome?_eq_none_iff.mpr h]

/-- The first child with an injected error speaks for all of them. -/
theorem list_first_error {before after : List (String × Entry)} {key message : String} {child : Entry}
    (hc : f.childBindings dir = before ++ (key, child) :: after) (h : ∀ b ∈ before, b.2.error = none)
    (hm : child.error = some message) : (f.list dir).result = .error (.injected message) := by
  have hfirst : (before ++ (key, child) :: after).findSome? (fun b => b.2.error) = some message := by
    rw [List.findSome?_append, List.findSome?_eq_none_iff.mpr h, List.findSome?_cons, hm, Option.none_or]
  rw [list_result hdir herror hisDir, gather_result, hc, hfirst]

end List

section Congr

variable {f} {g : Fixture} {path : String}

theorem Barred.congr (h : g.get? path = f.get? path) {fault : Fault} (hb : f.Barred path fault) :
    g.Barred path fault := by
  cases hb with
  | missing hg => exact .missing (h.trans hg)
  | injected hg he => exact .injected (h.trans hg) he
  | notADirectory hg he hd => exact .notADirectory (h.trans hg) he hd

theorem lookup_congr (h : f.get? path = g.get? path) (op : String) : f.lookup op path = g.lookup op path := by
  rw [lookup, lookup, h]

theorem requireDir_congr (h : f.get? path = g.get? path) (op : String) :
    f.requireDir op path = g.requireDir op path := by
  rw [requireDir, requireDir, lookup_congr h]

theorem content_congr (h : f.get? path = g.get? path) : f.content path = g.content path := by
  rw [content, content, lookup_congr h]

theorem list_congr (h : f.get? path = g.get? path) (hc : f.childBindings path = g.childBindings path) :
    f.list path = g.list path := by
  rw [list_eq_gather, list_eq_gather, requireDir_congr h, hc]

theorem tour_congr {σ : Type} (h : f.get? path = g.get? path) (hs : f.subtree path = g.subtree path) (s : σ)
    (go : List Visit → Tour σ) : f.tour path s go = g.tour path s go := by
  rw [tour, tour, requireDir_congr h, visits, visits, hs]

end Congr

end Fixture
end FileFixture
