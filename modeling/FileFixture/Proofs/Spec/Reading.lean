import FileFixture.Proofs.Path.NormalForm
import FileFixture.Proofs.Spec.TagItems

/-!
Reading undoes writing. However an outline is laid out, splitting finds its parts, children and items again,
each segment is taken apart into its name and its two groups, and the cursor is at every moment the path of
the names on the stack.
-/
namespace FileFixture.Spec

open FileFixture.Path (IsName ofComponents)

namespace Name

theorem not_separator (n : Name) : ∀ c ∈ n.text, Path.isSeparator c = false := by
  intro c hc
  have h := n.plain c hc
  simp only [List.mem_cons, not_or] at h
  simp [Path.isSeparator, h.1, h.2.1]

theorem not_bracket (n : Name) : ∀ c ∈ n.text, isOpener c = false ∧ isCloser c = false := by
  intro c hc
  have h := n.plain c hc
  simp only [List.mem_cons, not_or] at h
  simp [isOpener, isCloser, h]

theorem nested {outside : Char → Prop} (n : Name) (h : ∀ c ∈ n.text, outside c) :
    Nested outside n.text :=
  .of_plain fun c hc => ⟨(n.not_bracket c hc).1, (n.not_bracket c hc).2, h c hc⟩

theorem around_not_isOpener (n : Name) (m : Margin) : ∀ c ∈ m.around n.text, isOpener c = false := by
  intro c hc
  rcases List.mem_append.mp hc with hc | hc
  · rcases List.mem_append.mp hc with hc | hc
    · exact not_isOpener_of_isBlank (Text.allBlank_iff.mp m.before.blank c hc)
    · exact (n.not_bracket c hc).1
  · exact not_isOpener_of_isBlank (Text.allBlank_iff.mp m.after.blank c hc)

end Name

theorem ChildName.isName (n : ChildName) : IsName n.text := by
  have h := n.declares
  simp only [List.mem_cons, List.not_mem_nil, or_false, not_or] at h
  exact ⟨h.1, h.2.1, h.2.2, n.not_separator⟩

theorem nested_enclose {outside : Char → Prop} (b : Bracket) {inside : Option (List Char)}
    (h : ∀ i ∈ inside, Nested (fun _ => True) i) : Nested outside (enclose b inside) := by
  cases inside with
  | none => exact .nil
  | some i => exact .enclosed b (h i rfl)

namespace ChildLayout

theorem ofText_write (l : ChildLayout) (c : Child) :
    Segment.ofText (l.write c) = ⟨c.name.text, l.items.inside c.items, none⟩ := by
  have hnone : ∀ i ∈ (none : Option (List Char)), Nested (fun _ => True) i := by simp
  have hrest : Text.allBlank [] = true := rfl
  have hab : Bracket.round ≠ Bracket.square := by decide
  have h := ofText_enclose hab (c.name.around_not_isOpener l.name) (nested_inside l.items c.items) hnone
    l.after.blank hrest
  rw [trim_around, c.name.trimmed] at h
  simpa [write, enclose] using h

theorem nested_write (l : ChildLayout) (c : Child) : Nested (· ≠ ',') (l.write c) := by
  have hname : Nested (· ≠ ',') c.name.text :=
    c.name.nested fun a ha => by rintro rfl; exact c.name.no_comma ha
  have hblank : ∀ a, Text.isBlank a = true → a ≠ ',' := Text.ne_of_isBlank (by decide)
  exact ((hname.around hblank l.name).append
    (nested_enclose .round (nested_inside l.items c.items))).append (.of_allBlank l.after.blank hblank)

end ChildLayout

namespace PartLayout

theorem nested_children (l : PartLayout) (children : List Child) :
    ∀ t ∈ children.mapIdx fun i c => (l.children i).write c, Nested (· ≠ ',') t := by
  intro t ht
  obtain ⟨i, hi, rfl⟩ := List.mem_mapIdx.mp ht
  exact (l.children i).nested_write _

theorem nested_childrenInside (l : PartLayout) (children : List Child) :
    ∀ i ∈ l.childrenInside children, Nested (fun _ => True) i :=
  nested_groupInside (l.nested_children children)

theorem ofText_write (l : PartLayout) (p : Part) :
    Segment.ofText (l.write p) =
      ⟨p.name.text, l.items.inside p.items, l.childrenInside p.children⟩ := by
  have hname := p.name.around_not_isOpener l.name
  have hitems := nested_inside l.items p.items
  have hchildren := l.nested_childrenInside p.children
  by_cases ht : l.tagsFirst = true
  · have h := ofText_enclose (a := .round) (b := .square) (by decide) hname hitems hchildren
      l.between.blank l.after.blank
    rw [trim_around, p.name.trimmed] at h
    simpa [write, ht] using h
  · have h := ofText_enclose (a := .square) (b := .round) (by decide) hname hchildren hitems
      l.between.blank l.after.blank
    rw [trim_around, p.name.trimmed] at h
    simpa [write, ht] using h

theorem nested_write (l : PartLayout) (p : Part) : Nested (· ≠ '/') (l.write p) := by
  have hname : Nested (· ≠ '/') p.name.text :=
    p.name.nested fun c hc => by rintro rfl; exact absurd (p.name.not_separator _ hc) (by decide)
  have hitems : Nested (· ≠ '/') (enclose .round (l.items.inside p.items)) :=
    nested_enclose .round (nested_inside l.items p.items)
  have hchildren : Nested (· ≠ '/') (enclose .square (l.childrenInside p.children)) :=
    nested_enclose .square (l.nested_childrenInside p.children)
  have hblank : ∀ c, Text.isBlank c = true → c ≠ '/' := Text.ne_of_isBlank (by decide)
  have hgap : ∀ g : Gap, Nested (· ≠ '/') g.text := fun g => .of_allBlank g.blank hblank
  have hstart := hname.around hblank l.name
  by_cases ht : l.tagsFirst = true
  · simpa [write, ht] using
      (((hstart.append hitems).append (hgap l.between)).append hchildren).append (hgap l.after)
  · simpa [write, ht] using
      (((hstart.append hchildren).append (hgap l.between)).append hitems).append (hgap l.after)

end PartLayout

theorem stackPath_eq (stack : List (List Char)) : stackPath stack = ofComponents stack.reverse := by
  rw [stackPath, ofComponents, Path.render_eq_intercalate]

theorem descend_eq_step (stack : List (List Char)) (name : List Char) :
    descend stack name = Path.step stack name := by
  unfold descend
  split
  case h_1 => rw [Path.step_empty]
  case h_2 => rw [Path.step_dot]
  case h_3 => rw [Path.step_dots]
  case h_4 h₀ h₁ h₂ => rw [Path.step_name stack h₀ h₁ h₂]

/-- The cursor at the path of a stack moves as names are put on the stack and taken from it. -/
theorem join_stackPath {stack : List (List Char)} (hs : ∀ p ∈ stack, IsName p) {name : List Char}
    (hn : ∀ c ∈ name, Path.isSeparator c = false) :
    Path.join (stackPath stack) (String.ofList name) = stackPath (descend stack name) := by
  have hs' : ∀ p ∈ stack.reverse, IsName p := fun p hp => hs p (List.mem_reverse.mp hp)
  rw [Path.join_eq, Path.components_join, stackPath_eq, Path.components_ofComponents hs',
    List.reverse_reverse, String.toList_ofList, Path.enter_plain hn, ← descend_eq_step, stackPath_eq]

theorem isName_descend {stack : List (List Char)} (hs : ∀ p ∈ stack, IsName p) {name : List Char}
    (hn : ∀ c ∈ name, Path.isSeparator c = false) : ∀ p ∈ descend stack name, IsName p := by
  rw [descend_eq_step]
  exact Path.isName_of_step hs hn

theorem declared_eq_outlined {stack : List (List Char)} {name : List Char} {path : String}
    (hpath : path = stackPath stack) (isDir : Bool) (items : List Item) :
    declared (String.ofList name) path isDir (itemTags items) = outlined stack name isDir items := by
  subst hpath
  rfl

theorem not_spans {s : Segment} (h : ∀ c ∈ s.name, Path.isSeparator c = false) : s.spans = false :=
  List.any_eq_false.mpr fun c hc => by simpa [Path.isSeparator] using h c hc

theorem isMove_iff {s : Segment} : s.isMove = true ↔ s.name ∈ [[], ['.'], ['.', '.']] := by
  simp [Segment.isMove, or_assoc]

theorem child?_write {stack : List (List Char)} (hs : ∀ p ∈ stack, IsName p) (l : ChildLayout)
    (c : Child) : Segment.child? (stackPath stack) (Segment.ofText (l.write c)) =
      some (outlined (c.name.text :: stack) c.name.text false c.items) := by
  have hpath := join_stackPath hs c.name.not_separator
  rw [descend_eq_step, c.name.isName.step] at hpath
  rw [l.ofText_write, Segment.child?, not_spans c.name.not_separator, if_neg]
  · rw [ofGroup_inside]
    exact congrArg some (declared_eq_outlined hpath false c.items)
  · rw [isMove_iff]
    simpa using c.name.declares

/-- The children of a part are read below the place that the part leads to. -/
theorem childEntries_write {stack : List (List Char)} (hs : ∀ p ∈ stack, IsName p) (l : PartLayout)
    (p : Part) : (Segment.ofText (l.write p)).childEntries (stackPath stack) = p.below stack := by
  rw [l.ofText_write, Segment.childEntries, Part.below]
  cases h : l.childrenInside p.children with
  | none =>
    have hn : p.children = [] := by simpa using members_of_groupInside_none h
    rw [hn]
    rfl
  | some inside =>
    simp only
    rcases split_groupInside (l.nested_children p.children) h with hsplit | ⟨hn, g, hsplit⟩
    · rw [hsplit, filterMap_mapIdx
        (g := fun item => Segment.child? (stackPath stack) (Segment.ofText item))
        fun i c => child?_write hs (l.children i) c]
      exact congrFun List.filterMap_eq_map _
    · have hg : Segment.ofText g.text = ⟨[], none, none⟩ := by
        have hplain : ∀ c ∈ g.text, isOpener c = false := fun c hc =>
          not_isOpener_of_isBlank (Text.allBlank_iff.mp g.blank c hc)
        rw [ofText_plain hplain, Segment.literal, Text.trim_eq_nil g.blank]
      have hn' : p.children = [] := by simpa using hn
      rw [hsplit, hn']
      simp [hg, Segment.child?, Segment.isMove]

theorem ownEntries_write {stack : List (List Char)} (hs : ∀ p ∈ stack, IsName p) (l : PartLayout)
    (p : Part) : (Segment.ofText (l.write p)).ownEntries (stackPath stack) = p.own stack := by
  have hpath := join_stackPath hs p.name.not_separator
  rw [l.ofText_write, Segment.ownEntries, Part.own]
  split
  case isTrue hm =>
    rw [isMove_iff] at hm
    simp only [List.mem_cons, List.not_mem_nil, or_false] at hm
    rcases hm with hm | hm | hm <;> simp only [hm]
  case isFalse hm =>
    rw [isMove_iff] at hm
    simp only [List.mem_cons, List.not_mem_nil, or_false, not_or] at hm
    have hn : IsName p.name.text := ⟨hm.1, hm.2.1, hm.2.2, p.name.not_separator⟩
    rw [descend_eq_step, hn.step] at hpath
    split
    case h_1 h => exact absurd h hm.1
    case h_2 h => exact absurd h hm.2.1
    case h_3 h => exact absurd h hm.2.2
    case h_4 =>
      rw [ofGroup_inside]
      exact congrArg (· :: []) (declared_eq_outlined hpath _ p.items)

/-- From the path of a stack on, written parts declare what their outline says. -/
theorem declare_write {stack : List (List Char)} (hs : ∀ p ∈ stack, IsName p)
    (layouts : Nat → PartLayout) (outline : List Part) :
    declare (stackPath stack) ((outline.mapIdx fun i p => (layouts i).write p).map Segment.ofText) =
      outlineEntries stack outline := by
  induction outline generalizing stack layouts with
  | nil => rfl
  | cons p rest ih =>
    have hsep := p.name.not_separator
    have hspans : (Segment.ofText ((layouts 0).write p)).spans = false := by
      rw [(layouts 0).ofText_write]
      exact not_spans hsep
    have htarget : (Segment.ofText ((layouts 0).write p)).target (stackPath stack) =
        stackPath (descend stack p.name.text) := by
      rw [(layouts 0).ofText_write]
      exact join_stackPath hs hsep
    have hs' := isName_descend hs hsep
    rw [List.mapIdx_cons, List.map_cons, declare_cons, Segment.entries, Segment.advance, hspans,
      htarget, ownEntries_write hs, childEntries_write hs', if_neg Bool.false_ne_true,
      if_neg Bool.false_ne_true, ih hs' fun i => layouts (i + 1)]
    rfl

theorem pieceSegments_around (m : Margin) (text : List Char) :
    pieceSegments (m.around text) = pieceSegments text := by
  rw [← pieceSegments_trim, trim_around, pieceSegments_trim]

theorem declare_intercalate (layouts : Nat → PartLayout) (outline : List Part) :
    declare Path.root (pieceSegments (['/'].intercalate
      (outline.mapIdx fun i p => (layouts i).write p))) = outlineEntries [] outline := by
  have hmembers : ∀ t ∈ outline.mapIdx fun i p => (layouts i).write p, Nested (· ≠ '/') t := by
    intro t ht
    obtain ⟨i, hi, rfl⟩ := List.mem_mapIdx.mp ht
    exact (layouts i).nested_write _
  cases outline with
  | nil => rfl
  | cons p rest =>
    rw [pieceSegments, Nested.split_intercalate (by decide) (by simp) hmembers]
    have hs : ∀ p ∈ ([] : List (List Char)), IsName p := fun p hp => absurd hp List.not_mem_nil
    exact declare_write hs layouts (p :: rest)

/-- A spec that is written from an outline declares the entries of the outline, whatever layout was chosen. -/
theorem parse_write (l : Layout) (outline : List Part) :
    parse (l.write outline) = outlineEntries [] outline := by
  rw [parse_eq_declare, Layout.write, String.toList_ofList, pieceSegments_around]
  by_cases hslash : l.leadingSlash = true
  · rw [if_pos hslash, List.singleton_append, declare_slash, declare_intercalate]
  · rw [if_neg hslash, List.nil_append, declare_intercalate]

/-- Children before tags, a comma inside of a value, an item that says nothing, a way up, and white space at many
places. -/
theorem parse_write_child_and_way_up :
    ∃ (l : Layout) (outline : List Part),
      l.write outline = "\u3000/a [ c(data=x(,) )] ( err=é , zip )/.. /b (isdir=false)\n" ∧
      parse (l.write outline) = outlineEntries [] outline ∧
      outlineEntries [] outline =
        [{ Entry.dir "a" with path := "/a", error := some "é" },
          { Entry.file "c" with path := "/a/c", content := some [0x78, 0x28, 0x2c, 0x29] },
          { Entry.file "b" with path := "/b" }] := by
  let nothing : Gap := ⟨[], rfl⟩
  let space : Gap := ⟨[' '], rfl⟩
  let call : Value := ⟨"x(,)".toList, by decide, by decide,
    .plain rfl rfl (by decide) (.group .round (.plain rfl rfl trivial .nil) .nil)⟩
  let accented : Value := ⟨"é".toList, by decide, by decide, .plain rfl rfl (by decide) .nil⟩
  let no : Value := ⟨"false".toList, by decide, by decide, .of_plain (by simp [isOpener, isCloser])⟩
  let zip : Item := .other "zip".toList (by decide) (.of_plain (by simp [isOpener, isCloser]))
    (by simp [errorKey, contentKey, isDirKey])
  let child : Child := ⟨⟨⟨['c'], by decide, by simp⟩, by decide, by decide⟩, [.content call]⟩
  let outline : List Part :=
    [⟨⟨['a'], by decide, by simp⟩, [.error accented, zip], [child]⟩, ⟨⟨['.', '.'], by decide, by simp⟩, [], []⟩,
      ⟨⟨['b'], by decide, by simp⟩, [.isDir no], []⟩]
  let childLayout : ChildLayout := ⟨⟨space, nothing⟩, ⟨fun _ => ⟨nothing, space⟩, none⟩, nothing⟩
  let first : PartLayout :=
    ⟨⟨nothing, space⟩, false, ⟨fun _ => ⟨space, space⟩, none⟩, fun _ => childLayout, none, space, nothing⟩
  let later : PartLayout :=
    ⟨⟨nothing, space⟩, true, ⟨fun _ => ⟨nothing, nothing⟩, none⟩, fun _ => childLayout, none, nothing, nothing⟩
  let l : Layout := ⟨⟨⟨['\u3000'], rfl⟩, ⟨['\n'], rfl⟩⟩, true, fun i => if i = 0 then first else later⟩
  exact ⟨l, outline, by decide, parse_write l outline, by decide⟩

end FileFixture.Spec
