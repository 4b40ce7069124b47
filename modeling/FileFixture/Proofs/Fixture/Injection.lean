import FileFixture.Proofs.Fixture.Bare
import FileFixture.Proofs.Fixture.Isolation

/-!
What an injected error reaches. At its own path it speaks for every query, in the listing of the directory above
it speaks unless another child comes first, and walks from above hand it to the visitor. No other answer
changes, and once it is cleared the fixture is what it was before.
-/
namespace FileFixture.Fixture

/-- Every query at a path is refused with the same fault, and no visitor is called. -/
structure RefusedAt (f : Fixture) (path : String) (fault : Fault) : Prop where
  stat : (f.stat path).result = .error fault
  content : (f.content path).result = .error fault
  list : (f.list path).result = .error fault
  walk : ∀ {σ : Type} (visitor : Visitor σ) (s : σ),
    ∃ records, f.walk path visitor s = ⟨s, [], ⟨.error fault, records⟩⟩
  walkUntil : ∀ {σ : Type} (visitor : Visitor σ) (s : σ),
    ∃ records, f.walkUntil path visitor s = ⟨s, [], ⟨.error fault, records⟩⟩

/-- The listing is refused with the error of the first child that has one. -/
def RefusedByChild (f : Fixture) (dir : String) : Prop :=
  ∃ before key child after message, f.childBindings dir = before ++ (key, child) :: after ∧
    (∀ b ∈ before, b.2.error = none) ∧ child.error = some message ∧
    (f.list dir).result = .error (.injected message)

/-- How `g` answers, in which the entry at `path` has got an injected error and all else is as in `f`. -/
structure Injected (f g : Fixture) (path message : String) : Prop where
  here : g.RefusedAt path (.injected message)
  listed : ∀ dir name, Path.childName path dir = some name →
    (∀ fault, f.Barred dir fault → (g.list dir).result = .error fault) ∧
      ((∀ fault, ¬f.Barred dir fault) → g.RefusedByChild dir)
  walked : ∀ root, root ≠ path → Path.isWithin path root = true → ∀ {σ : Type} (visitor : Visitor σ) (s : σ),
    (g.walk root visitor s).answer.result = (f.walk root visitor s).answer.result ∧
      (g.walk root visitor s).visits = (f.walk root visitor s).visits.map fun v =>
        if v.path = path then ⟨path, .error (.injected message)⟩ else v
  elsewhere : ∀ other, other ≠ path → g.stat other = f.stat other ∧ g.content other = f.content other ∧
    ((f.contains other = true → Path.childName path other = none) → g.list other = f.list other)
  outside : ∀ root, Path.isWithin path root = false → ∀ {σ : Type} (visitor : Visitor σ) (s : σ),
    g.walk root visitor s = f.walk root visitor s ∧ g.walkUntil root visitor s = f.walkUntil root visitor s

theorem get?_edit (f : Fixture) (path q : String) (d : Edit) :
    (f.edit path d).get? q = if q = path then (f.get? q).map (·.edit d) else f.get? q :=
  Catalog.get?_modify f.entries path q _

section Edit

variable {f : Fixture} {path : String} {e : Entry}

theorem get?_edit_self (h : f.get? path = some e) (d : Edit) : (f.edit path d).get? path = some (e.edit d) := by
  rw [get?_edit, if_pos rfl, h]
  rfl

theorem get?_edit_of_ne {q : String} (h : q ≠ path) (d : Edit) : (f.edit path d).get? q = f.get? q := by
  rw [get?_edit, if_neg h]

theorem configure_edit (h : f.get? path = some e) (d : Edit) :
    f.configure path [.edit d] = (some [(e.access (.edit d)).1], f.edit path d) := by
  rw [configure, h]
  rfl

/-- Where every look-up is refused, so is every query. -/
theorem refusedAt_of_lookup {fault : Fault} (hb : f.Barred path fault)
    (hl : ∀ op, (f.lookup op path).result = .error fault) : f.RefusedAt path fault := by
  constructor
  · exact hl "stat"
  · rw [content, Answer.map, hl]
    rfl
  · exact list_barred hb
  · exact fun visitor s => ⟨_, tour_barred hb s _⟩
  · exact fun visitor s => ⟨_, tour_barred hb s _⟩

theorem refusedAt_of_error {message : String} (h : f.get? path = some e) (he : e.error = some message) :
    f.RefusedAt path (.injected message) := by
  refine refusedAt_of_lookup (.injected h he) fun op => ?_
  simp only [lookup_eq, h, he]
  rfl

theorem refusedByChild_of_error {dir name message : String} {d : Entry} (hdir : f.get? dir = some d)
    (herror : d.error = none) (hisDir : d.isDir = true) (h : f.get? path = some e)
    (hname : Path.childName path dir = some name) (he : e.error = some message) : f.RefusedByChild dir := by
  have hm : (path, e) ∈ f.childBindings dir := mem_childBindings.mpr ⟨h, name, hname⟩
  cases hfind : (f.childBindings dir).find? (·.2.error.isSome) with
  | none =>
    have hn := List.find?_eq_none.mp hfind _ hm
    simp [he] at hn
  | some b =>
    obtain ⟨hb, before, after, hc, hbefore⟩ := List.find?_eq_some_iff_append.mp hfind
    obtain ⟨message', hm'⟩ := Option.isSome_iff_exists.mp hb
    have hclean : ∀ b ∈ before, b.2.error = none := by simpa using hbefore
    exact ⟨before, b.1, b.2, after, message', hc, hclean, hm',
      list_first_error hdir herror hisDir hc hclean hm'⟩

theorem subtree_edit (f : Fixture) (path root : String) (d : Edit) :
    (f.edit path d).subtree root =
      (f.subtree root).map fun b => (b.1, if b.1 = path then b.2.edit d else b.2) := by
  rw [subtree_eq_filter, subtree_eq_filter]
  exact List.filter_map

theorem visits_setError (f : Fixture) (path root message : String) :
    (f.edit path (.setError message)).visits root = (f.visits root).map fun v =>
      if v.path = path then ⟨path, .error (.injected message)⟩ else v := by
  rw [visits, visits, subtree_edit, List.map_map, List.map_map]
  refine List.map_congr_left fun b _ => ?_
  obtain ⟨key, e⟩ := b
  by_cases hk : key = path
  · simp [hk, Entry.edit, Entry.outcome]
  · simp [hk]

theorem listed_setError {dir name : String} (h : f.get? path = some e) (hname : Path.childName path dir = some name)
    (message : String) :
    let g := f.edit path (.setError message)
    (∀ fault, f.Barred dir fault → (g.list dir).result = .error fault) ∧
      ((∀ fault, ¬f.Barred dir fault) → g.RefusedByChild dir) := by
  intro g
  have hne : dir ≠ path := by
    rintro rfl
    rw [Path.childName_self] at hname
    cases hname
  have hdir : g.get? dir = f.get? dir := get?_edit_of_ne hne _
  refine ⟨fun fault hb => list_barred (hb.congr hdir), fun hnb => ?_⟩
  rcases f.enterable_or_barred dir with ⟨d, hd, herror, hisDir⟩ | ⟨fault, hb⟩
  · exact refusedByChild_of_error (hdir.trans hd) herror hisDir (get?_edit_self h _) hname rfl
  · exact absurd hb (hnb fault)

/-- A walk from above hands the error to its visitor in the place of the entry and goes on. -/
theorem walked_setError {root : String} (hne : root ≠ path) (message : String) {σ : Type} (visitor : Visitor σ)
    (s : σ) :
    let g := f.edit path (.setError message)
    (g.walk root visitor s).answer.result = (f.walk root visitor s).answer.result ∧
      (g.walk root visitor s).visits = (f.walk root visitor s).visits.map fun v =>
        if v.path = path then ⟨path, .error (.injected message)⟩ else v := by
  intro g
  rw [walk, walk, tour, tour, requireDir_congr (get?_edit_of_ne hne _), visits_setError]
  cases (f.requireDir "walk" root).result with
  | error fault => exact ⟨rfl, rfl⟩
  | ok _ => exact ⟨rfl, rfl⟩

/-- The listing of a directory does not change with an entry that is no child of it. -/
theorem list_edit {dir : String} (hne : dir ≠ path)
    (hchild : f.contains dir = true → Path.childName path dir = none) (d : Edit) :
    (f.edit path d).list dir = f.list dir := by
  have hdir : (f.edit path d).get? dir = f.get? dir := get?_edit_of_ne hne _
  by_cases hc : f.contains dir = true
  · refine list_congr hdir ?_
    refine Catalog.filter_bindings_congr (p := fun key => (Path.childName key dir).isSome) fun key hkey => ?_
    refine get?_edit_of_ne ?_ d
    rintro rfl
    rw [hchild hc] at hkey
    cases hkey
  · have hg : f.get? dir = none := Option.not_isSome_iff_eq_none.mp hc
    have hr := f.requireDir_barred (.missing hg) "read_dir"
    rw [list, list, requireDir_congr hdir, hr]
    rfl

theorem agreeWithin_edit {root : String} (h : Path.isWithin path root = false) (d : Edit) :
    AgreeWithin (f.edit path d) f root := by
  intro key hkey
  refine get?_edit_of_ne ?_ d
  rintro rfl
  rw [h] at hkey
  cases hkey

theorem injected_edit (h : f.get? path = some e) (message : String) :
    Injected f (f.edit path (.setError message)) path message where
  here := refusedAt_of_error (get?_edit_self h _) rfl
  listed := fun _ _ hname => listed_setError h hname message
  walked := fun _ hne _ _ visitor s => walked_setError hne message visitor s
  elsewhere := by
    intro other hne
    have hother := get?_edit_of_ne (f := f) hne (.setError message)
    exact ⟨lookup_congr hother "stat", content_congr hother, fun hchild => list_edit hne hchild _⟩
  outside := by
    intro root hw σ visitor s
    have halike := (agreeWithin_edit (f := f) hw (.setError message)).alikeAt
    exact ⟨halike.walk visitor s, halike.walkUntil visitor s⟩

/-- An error that is cleared again leaves nothing behind where there was none before. -/
theorem edit_setError_clearError (h : f.get? path = some e) (he : e.error = none) (message : String) :
    (f.edit path (.setError message)).edit path .clearError = f := by
  have hb : ∀ b ∈ f.entries.bindings,
      (b.1, if b.1 = path then (if b.1 = path then b.2.edit (.setError message) else b.2).edit .clearError
        else if b.1 = path then b.2.edit (.setError message) else b.2) = id b := by
    rintro ⟨key, a⟩ hm
    by_cases hk : key = path
    · have ha : some a = some e := by
        rw [← h, ← hk]
        exact (Catalog.get?_eq_some_iff.mpr hm).symm
      cases ha
      simp [hk, Entry.edit, ← he]
    · simp [hk]
  have hentries : ((f.edit path (.setError message)).edit path .clearError).entries = f.entries := by
    apply Catalog.ext
    exact (List.map_map).trans ((List.map_congr_left hb).trans (List.map_id _))
  rw [edit, edit] at hentries ⊢
  dsimp only at hentries ⊢
  rw [hentries]

theorem bare_configure (f : Fixture) (path : String) {d : Edit} (h : ∀ e : Entry, (e.edit d).bare = e.bare) :
    (f.configure path [.edit d]).2.bare = f.bare := by
  cases hg : f.get? path with
  | none =>
    rw [configure, hg]
  | some e =>
    rw [configure_edit hg]
    exact f.bare_edit path h

end Edit

/-- An error that is set at a path speaks there, in the listing above and in walks from above, and nowhere else;
clearing it answers with it and takes it away. Content and mode change no answer but themselves. -/
theorem setError_injected_and_cleared (f : Fixture) {path : String} {e : Entry} (h : f.get? path = some e)
    (message : String) :
    let g := (f.configure path [.edit (.setError message)]).2
    Injected f g path message ∧
    (g.configure path [.edit .clearError]).1 = some [.error (some message)] ∧
    (e.error = none → (g.configure path [.edit .clearError]).2 = f) ∧
    ∀ (f : Fixture) (path : String) (d : Edit), ((∃ bytes, d = .setContent bytes) ∨ ∃ mode, d = .setMode mode) →
      ∀ other, AlikeUpToContent (f.configure path [.edit d]).2 f other := by
  intro g
  have hg : g = f.edit path (.setError message) := congrArg Prod.snd (configure_edit h _)
  have hpath := get?_edit_self h (.setError message)
  rw [hg, configure_edit hpath]
  refine ⟨injected_edit h message, rfl, fun he => edit_setError_clearError h he message, ?_⟩
  intro f path d hd other
  have hbare : ∀ e : Entry, (e.edit d).bare = e.bare := by
    intro e
    rcases hd with ⟨bytes, rfl⟩ | ⟨mode, rfl⟩ <;> rfl
  exact alikeUpToContent_of_bare_eq (bare_configure f path hbare) other

/-- The listing tells the older error of the sibling that comes first. -/
theorem setError_injected_and_cleared_child :
    let f := ofSpecs ["/a [b (err=old), c] / d"]
    let g := (f.configure "/a/c" [.edit (.setError "new")]).2
    Injected f g "/a/c" "new" ∧ (g.list "/a").result = .error (.injected "old") ∧
      (g.list "/").result.isOk = true ∧ (g.configure "/a/c" [.edit .clearError]).2 = f := by
  intro f g
  have h : f.get? "/a/c" = some { Entry.file "c" with path := "/a/c" } := by decide
  obtain ⟨hinjected, -, hcleared, -⟩ := setError_injected_and_cleared f h "new"
  exact ⟨hinjected, rfl, rfl, hcleared rfl⟩

end FileFixture.Fixture
