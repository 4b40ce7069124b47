import FileFixture.Proofs.Spec.Placement

/-!
Specs put one behind the other. Where the brackets of the first come out even, the segments of the second follow
those of the first, and they declare what they declare alone, but from where the cursor stands by then. Only a way
up may come out differently: the root stops it, and another place does not.
-/
namespace FileFixture

open FileFixture.Path (components ofComponents)

namespace Path

theorem step_append {part : List Char} (h : part ≠ ['.', '.']) (stack below : List (List Char)) :
    step (stack ++ below) part = step stack part ++ below := by
  by_cases hstay : part = [] ∨ part = ['.']
  · rw [step, step, if_pos hstay, if_pos hstay]
  · rw [step, step, if_neg hstay, if_neg hstay, if_neg h, if_neg h, List.cons_append]

theorem toList_of_normal {path : String} (h : normalize path = path) :
    path.toList = render (components path) := by
  have hlist := congrArg String.toList h
  rw [normalize, String.toList_ofList] at hlist
  exact hlist.symm

/-- A path in normal form is joined with all of its components. -/
theorem components_join_normal {path : String} (h : normalize path = path) (base : String) :
    components (join base path) = components base ++ components path := by
  rw [components_join, toList_of_normal h, enter_render isName_of_mem_components, ← List.reverse_append,
    List.reverse_reverse]

theorem join_root_right (base : String) : join base root = normalize base := by
  rw [join_eq, components_join_normal (by decide), components_root, List.append_nil, ← normalize_eq]

end Path

namespace Spec

/-- The entry, as far below a place as it was below the root. -/
def rebase (base : String) (e : Entry) : Entry := { e with path := Path.join base e.path }

theorem rebase_declared (base name path : String) (isDir : Bool) (tags : Tags) :
    rebase base (declared name path isDir tags) = declared name (Path.join base path) isDir tags := rfl

variable {base cursor : String}

namespace Segment

variable {s : Segment}

/-- From further below, a segment leads as much further below, unless it goes up from where there is an up. -/
theorem target_join (hs : s.spans = false) (hup : base = Path.root ∨ s.name ≠ ['.', '.'])
    (hcursor : Path.normalize cursor = cursor) :
    s.target (Path.join base cursor) = Path.join base (s.target cursor) := by
  have htarget : Path.normalize (s.target cursor) = s.target cursor := Path.normalize_join _ _
  have hstep : Path.step ((components cursor).reverse ++ (components base).reverse) s.name =
      Path.step (components cursor).reverse s.name ++ (components base).reverse := by
    rcases hup with rfl | hname
    · rw [Path.components_root, List.reverse_nil, List.append_nil, List.append_nil]
    · exact Path.step_append hname _ _
  have hcomponents : components (s.target (Path.join base cursor)) =
      components (Path.join base (s.target cursor)) := by
    rw [components_target hs, Path.components_join_normal hcursor, Path.components_join_normal htarget,
      components_target hs, List.reverse_append, hstep, List.reverse_append, List.reverse_reverse]
  rw [target, Path.join_eq _ s.nameText, Path.join_eq base (s.target cursor), ← hcomponents]
  rfl

theorem child?_join (hcursor : Path.normalize cursor = cursor) (s : Segment) :
    child? (Path.join base cursor) s = (child? cursor s).map (rebase base) := by
  unfold child?
  split
  case isTrue => rfl
  case isFalse h =>
    rw [not_or, Bool.not_eq_true, Bool.not_eq_true] at h
    have hname : s.name ≠ ['.', '.'] := (isName_of_declares h.1 h.2).ne_dots
    rw [Option.map_some, rebase_declared, target_join h.2 (Or.inr hname) hcursor]

theorem childEntries_join (hcursor : Path.normalize cursor = cursor) (s : Segment) :
    s.childEntries (Path.join base cursor) = (s.childEntries cursor).map (rebase base) := by
  unfold childEntries
  split
  case h_1 => rfl
  case h_2 =>
    rw [List.map_filterMap]
    simp only [child?_join hcursor]

theorem ownEntries_join (hs : s.spans = false) (hcursor : Path.normalize cursor = cursor) :
    s.ownEntries (Path.join base cursor) = (s.ownEntries cursor).map (rebase base) := by
  unfold ownEntries
  split
  case isTrue => rfl
  case isFalse h =>
    have hname : s.name ≠ ['.', '.'] := (isName_of_declares (Bool.eq_false_iff.mpr h) hs).ne_dots
    rw [target_join hs (Or.inr hname) hcursor]
    rfl

theorem entries_join (hup : base = Path.root ∨ s.name ≠ ['.', '.']) (hcursor : Path.normalize cursor = cursor) :
    s.entries (Path.join base cursor) = (s.entries cursor).map (rebase base) := by
  unfold entries
  split
  case isTrue => rfl
  case isFalse h =>
    have hs : s.spans = false := Bool.eq_false_iff.mpr h
    have htarget : Path.normalize (s.target cursor) = s.target cursor := Path.normalize_join _ _
    rw [List.map_append, ownEntries_join hs hcursor, target_join hs hup hcursor, childEntries_join htarget]

theorem advance_join (hup : base = Path.root ∨ s.name ≠ ['.', '.']) (hcursor : Path.normalize cursor = cursor) :
    s.advance (Path.join base cursor) = Path.join base (s.advance cursor) := by
  unfold advance
  split
  case isTrue => rfl
  case isFalse h => exact target_join (Bool.eq_false_iff.mpr h) hup hcursor

theorem normalize_advance (hcursor : Path.normalize cursor = cursor) (s : Segment) :
    Path.normalize (s.advance cursor) = s.advance cursor := by
  unfold advance
  split
  case isTrue => exact hcursor
  case isFalse => exact Path.normalize_join _ _

end Segment

theorem declare_join {segments : List Segment}
    (hup : base = Path.root ∨ ∀ s ∈ segments, s.name ≠ ['.', '.']) (hcursor : Path.normalize cursor = cursor) :
    declare (Path.join base cursor) segments = (declare cursor segments).map (rebase base) := by
  induction segments generalizing cursor with
  | nil => rfl
  | cons s segments ih =>
    have hs : base = Path.root ∨ s.name ≠ ['.', '.'] := hup.imp_right fun h => h s List.mem_cons_self
    have hrest : base = Path.root ∨ ∀ s ∈ segments, s.name ≠ ['.', '.'] :=
      hup.imp_right fun h s hs => h s (List.mem_cons_of_mem _ hs)
    rw [declare_cons, declare_cons, List.map_append, Segment.entries_join hs hcursor,
      Segment.advance_join hs hcursor, ih hrest (s.normalize_advance hcursor)]

theorem normalize_cursorAfter (hcursor : Path.normalize cursor = cursor) (segments : List Segment) :
    Path.normalize (cursorAfter cursor segments) = cursorAfter cursor segments := by
  induction segments generalizing cursor with
  | nil => exact hcursor
  | cons s segments ih => exact ih (s.normalize_advance hcursor)

/-- The cursor passes over the segments that declare nothing because they span several components. -/
theorem cursorAfter_eq_foldl_join (cursor : String) (segments : List Segment) :
    cursorAfter cursor segments =
      (segments.filter (!·.spans)).foldl (fun c s => Path.join c s.nameText) cursor := by
  induction segments generalizing cursor with
  | nil => rfl
  | cons s segments ih =>
    rw [cursorAfter_cons, ih, Segment.advance, List.filter_cons]
    cases s.spans <;> rfl

/-- A slash at the head of a text adds a piece without a name, and nothing else is lost of its pieces. -/
theorem pieceSegments_eq_or (text : List Char) :
    pieceSegments text = segments text ∨ pieceSegments text = Segment.ofText [] :: segments text := by
  rw [← pieceSegments_trim, segments, body]
  split
  case h_1 rest h =>
    right
    rw [h, pieceSegments, split, splitFrom_cons, if_pos (by decide), List.map_cons]
    rfl
  case h_2 => exact Or.inl rfl

theorem cursorAfter_pieceSegments (text : List Char) :
    cursorAfter Path.root (pieceSegments text) = cursorAfter Path.root (segments text) := by
  have hadvance : (Segment.ofText []).advance Path.root = Path.root := by decide
  rcases pieceSegments_eq_or text with h | h
  · rw [h]
  · rw [h, cursorAfter_cons, hadvance]

theorem forall_pieceSegments {text : List Char} (h : ∀ s ∈ segments text, s.name ≠ ['.', '.']) :
    ∀ s ∈ pieceSegments text, s.name ≠ ['.', '.'] := by
  rcases pieceSegments_eq_or text with hp | hp
  · rwa [hp]
  · rw [hp]
    exact List.forall_mem_cons.mpr ⟨by decide, h⟩

theorem pieceSegments_append {s : List Char} (h : depthAfter 0 s = 0) (t : List Char) :
    pieceSegments (s ++ '/' :: t) = pieceSegments s ++ pieceSegments t := by
  have hslash : ¬(isOpener '/' = true ∨ isCloser '/' = true) := by decide
  rw [pieceSegments, split, splitFrom_append hslash s t h, List.map_append]
  rfl

/-- What a spec declares of which the first part comes out even. -/
theorem parse_append {s₁ : String} (h : depthAfter 0 s₁.toList = 0) (s₂ : String) :
    parse (s₁ ++ "/" ++ s₂) =
      parse s₁ ++ declare (cursorAfter Path.root (segments s₁.toList)) (pieceSegments s₂.toList) := by
  have htext : (s₁ ++ "/" ++ s₂).toList = s₁.toList ++ '/' :: s₂.toList := by simp
  rw [parse_eq_declare, htext, pieceSegments_append h, declare_append, cursorAfter_pieceSegments,
    parse_eq_declare]

theorem parse_slash (s : String) : parse ("/" ++ s) = parse s := by
  have htext : ("/" ++ s).toList = '/' :: s.toList := by simp
  rw [parse_eq_declare, htext, declare_slash, parse_eq_declare]

/-- Behind a spec whose brackets come out even, another declares what it declares alone, below the place that the
first has led to; if it goes up itself, then only where that place is the root. What the first declares stays. -/
theorem parse_append_eq_rebased {s₁ s₂ : String} (hdepth : depthAfter 0 s₁.toList = 0) :
    let c := cursorAfter Path.root (segments s₁.toList)
    c = ((segments s₁.toList).filter (!·.spans)).foldl (fun c s => Path.join c s.nameText) Path.root ∧
    (c = Path.root ∨ (∀ s ∈ segments s₂.toList, s.name ≠ ['.', '.']) →
      parse (s₁ ++ "/" ++ s₂) = parse s₁ ++ (parse s₂).map fun e => { e with path := Path.join c e.path }) ∧
    parse s₁ <+: parse (s₁ ++ "/" ++ s₂) ∧
    ∀ s, parse ("/" ++ s) = parse s := by
  intro c
  have hc : Path.normalize c = c := normalize_cursorAfter (by decide) _
  refine ⟨cursorAfter_eq_foldl_join _ _, fun hup => ?_, ?_, parse_slash⟩
  · have hjoin : Path.join c Path.root = c := by rw [Path.join_root_right, hc]
    have hrebased : declare (Path.join c Path.root) (pieceSegments s₂.toList) = _ :=
      declare_join (hup.imp_right forall_pieceSegments) (by decide)
    rw [hjoin] at hrebased
    rw [parse_append hdepth, hrebased, ← parse_eq_declare]
    rfl
  · rw [parse_append hdepth]
    exact List.prefix_append _ _

/-- The first spec ends in `/a`, behind a segment that is passed over; the second moves, but not up. -/
theorem parse_append_eq_rebased_below :
    let s₁ := " /a [x(err=1/2)]/b//../c\\ "
    let s₂ := " ./d[e, ..](data=3)//e"
    depthAfter 0 s₁.toList = 0 ∧ (∀ s ∈ segments s₂.toList, s.name ≠ ['.', '.']) ∧
      (parse (s₁ ++ "/" ++ s₂)).map (fun e => (e.path, e.error)) =
        [("/a", none), ("/a/x", some "1/2"), ("/a/b", none), ("/a/d", none), ("/a/d/e", none), ("/a/d/e", none)] := by
  intro s₁ s₂
  have hdepth : depthAfter 0 s₁.toList = 0 := by decide
  have hup : ∀ s ∈ segments s₂.toList, s.name ≠ ['.', '.'] := by decide
  refine ⟨hdepth, hup, ?_⟩
  rw [(parse_append_eq_rebased hdepth).2.1 (Or.inr hup)]
  decide

end Spec
end FileFixture
