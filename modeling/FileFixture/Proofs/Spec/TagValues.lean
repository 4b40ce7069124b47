import FileFixture.Proofs.Spec.TagItems

/-!
Values as a tag is written. A value runs to the end of its item and loses the white space there, but not the white
space between the equals sign and its first other character; and with a line break in it the item is no tag at all. So
an entry has the trimmed value of its tag just when nothing is to be trimmed at the head and the value is on one line.
-/
namespace FileFixture.Spec

open Text (trim trimEnd)

/-- The entry that a segment of the spec declares, or one of the children in its group: who declares it, and with
what tags, is told by the segment of its own text. -/
inductive Declares (spec : String) : Segment → Entry → Prop
  | segment {before after : List Segment} {s : Segment} {e : Entry} :
      pieceSegments spec.toList = before ++ s :: after → s.spans = false →
      e ∈ s.ownEntries (cursorAfter Path.root before) → Declares spec s e
  | child {before after : List Segment} {s : Segment} {group item : List Char} {e : Entry} :
      pieceSegments spec.toList = before ++ s :: after → s.spans = false → s.children = some group →
      item ∈ split ',' group →
      Segment.child? (s.target (cursorAfter Path.root before)) (Segment.ofText item) = some e →
      Declares spec (Segment.ofText item) e

theorem mem_declare_iff {e : Entry} {cursor : String} {segments : List Segment} :
    e ∈ declare cursor segments ↔
      ∃ before s after, segments = before ++ s :: after ∧ e ∈ s.entries (cursorAfter cursor before) := by
  induction segments generalizing cursor with
  | nil => simp
  | cons s segments ih =>
    rw [declare_cons, List.mem_append, ih]
    constructor
    · rintro (h | ⟨before, s', after, rfl, h⟩)
      · exact ⟨[], s, segments, rfl, h⟩
      · exact ⟨s :: before, s', after, rfl, h⟩
    · rintro ⟨before, s', after, hsegments, h⟩
      cases before with
      | nil =>
        obtain ⟨rfl, rfl⟩ := List.cons.inj hsegments
        exact Or.inl h
      | cons b before =>
        obtain ⟨rfl, rfl⟩ := List.cons.inj hsegments
        exact Or.inr ⟨before, s', after, rfl, h⟩

/-- The entries of a spec are those that its segments and their children declare. -/
theorem mem_parse_iff {spec : String} {e : Entry} : e ∈ parse spec ↔ ∃ s, Declares spec s e := by
  rw [parse_eq_declare, mem_declare_iff]
  constructor
  · rintro ⟨before, s, after, hsegments, h⟩
    obtain ⟨hs, h | h⟩ := Segment.mem_entries_iff.mp h
    · exact ⟨s, .segment hsegments hs h⟩
    · obtain ⟨group, hgroup, item, hitem, he⟩ := Segment.mem_childEntries_iff.mp h
      exact ⟨_, .child hsegments hs hgroup hitem he⟩
  · rintro ⟨s, h⟩
    cases h with
    | segment hsegments hs he =>
      exact ⟨_, _, _, hsegments, Segment.mem_entries_iff.mpr ⟨hs, Or.inl he⟩⟩
    | child hsegments hs hgroup hitem he =>
      have hchild := Segment.mem_childEntries_iff.mpr ⟨_, hgroup, _, hitem, he⟩
      exact ⟨_, _, _, hsegments, Segment.mem_entries_iff.mpr ⟨hs, Or.inr hchild⟩⟩

theorem Declares.exists_declared {spec : String} {s : Segment} {e : Entry} (h : Declares spec s e) :
    ∃ name path isDir, e = declared name path isDir (Tags.ofGroup s.tags) := by
  cases h with
  | segment _ _ he => exact ⟨_, _, _, (Segment.mem_ownEntries_iff.mp he).2⟩
  | child _ _ _ _ he => exact ⟨_, _, _, (Segment.child?_eq_some_iff.mp he).2⟩

namespace ValueTag

/-- The value that an item gives, if it is a tag of this kind. -/
def ofItem? (kind : ValueTag) (item : List Char) : Option (List Char) := (Tag.ofItem? (trim item)).bind kind.value?

/-- The entry has the value as its error, or its text in UTF-8 as its content; or it has neither. -/
def Holds (kind : ValueTag) (value : Option (List Char)) (e : Entry) : Prop :=
  match kind with
  | error => e.error = value.map String.ofList
  | content => e.content = value.map fun text => (String.ofList text).toUTF8.data.toList

theorem Holds.iff_eq {kind : ValueTag} {a : Option (List Char)} {e : Entry} (h : kind.Holds a e)
    (b : Option (List Char)) : kind.Holds b e ↔ a = b := by
  have hbytes : Function.Injective fun text : List Char => (String.ofList text).toUTF8.data.toList := by
    intro s t hst
    exact String.ofList_inj.mp (String.toByteArray_inj.mp (ByteArray.ext (Array.toList_inj.mp hst)))
  have hlist : Function.Injective String.ofList := fun _ _ => String.ofList_inj.mp
  cases kind with
  | error => exact (Eq.congr_left h).trans (Option.map_injective hlist).eq_iff
  | content => exact (Eq.congr_left h).trans (Option.map_injective hbytes).eq_iff

/-- Of the items in its group, the last of a kind gives an entry its value. -/
theorem holds_of_declares (kind : ValueTag) {spec : String} {s : Segment} {e : Entry} (h : Declares spec s e)
    {group : List Char} (hgroup : s.tags = some group) :
    kind.Holds ((split ',' group).filterMap kind.ofItem?).getLast? e := by
  obtain ⟨name, path, isDir, rfl⟩ := h.exists_declared
  have htags : Tags.ofGroup s.tags = _ := (congrArg Tags.ofGroup hgroup).trans (foldl_add _)
  rw [htags]
  cases kind with
  | error =>
    change Option.map _ _ = Option.map _ _
    rw [List.filterMap_filterMap]
    rfl
  | content =>
    change Option.map _ _ = Option.map _ _
    rw [List.filterMap_filterMap, funext utf8_eq_toUTF8]
    rfl

theorem trim_key (kind : ValueTag) (v : List Char) : trim (kind.key ++ v) = kind.key ++ trimEnd v := by
  have hblank : Text.allBlank kind.key = false := by cases kind <;> decide
  have hstart : Text.trimStart kind.key = kind.key := by cases kind <;> decide
  have hend : trimEnd kind.key = kind.key := by cases kind <;> decide
  rw [trim, Text.trimStart_append, if_neg (by simp [hblank]), hstart, Text.trimEnd_append]
  split
  case isTrue hv =>
    have hnil : trimEnd v = [] := Text.trimEnd_append_right hv []
    rw [hend, hnil, List.append_nil]
  case isFalse => rfl

/-- A value on one line is taken to the end of its item, and trimmed there. -/
theorem ofItem?_around (kind : ValueTag) (m : Margin) (v : List Char) :
    kind.ofItem? (m.around (kind.key ++ v)) = if '\n' ∈ trimEnd v then none else some (trimEnd v) := by
  rw [ofItem?, trim_around, trim_key]
  by_cases hline : '\n' ∈ trimEnd v
  · have hitem : Tag.ofItem? (kind.key ++ trimEnd v) = none := if_pos (List.mem_append_right _ hline)
    rw [hitem, if_pos hline]
    rfl
  · rw [if_neg hline]
    cases kind <;> simp [Tag.ofItem?, key, errorKey, contentKey, hline]

theorem nested_item (kind : ValueTag) {v : List Char} (hv : Nested (· ≠ ',') v) (m : Margin) :
    Nested (· ≠ ',') (m.around (kind.key ++ v)) := by
  have hkey : Nested (· ≠ ',') kind.key := by cases kind <;> exact Item.nested_key rfl
  exact (hkey.append hv).around (Text.ne_of_isBlank (by decide)) m

end ValueTag

/-- The text ends where an item may begin: behind nothing, or behind a comma outside of all brackets. -/
def BeforeItem (text : List Char) : Prop := text = [] ∨ ∃ items, text = items ++ [','] ∧ depthAfter 0 items = 0

/-- The text begins where an item may end. -/
def BehindItem (text : List Char) : Prop := text = [] ∨ ∃ items, text = ',' :: items

/-- The item that is nested is one of those in the text, between the ones before it and the ones behind it. -/
theorem filterMap_split_item {α : Type} {read? : List Char → Option α} (hempty : read? [] = none)
    {left item right : List Char} (hleft : BeforeItem left) (hitem : Nested (· ≠ ',') item)
    (hright : BehindItem right) :
    (split ',' (left ++ (item ++ right))).filterMap read? =
      (split ',' left).filterMap read? ++ ((read? item).toList ++ (split ',' right).filterMap read?) := by
  have hcomma : ¬(isOpener ',' = true ∨ isCloser ',' = true) := by decide
  have hnil : (split ',' []).filterMap read? = [] := by simp [split, hempty]
  have hone : (split ',' item).filterMap read? = (read? item).toList := by
    rw [hitem.split_eq_singleton]
    cases hread : read? item <;> simp [hread]
  have hbehind : (split ',' (item ++ right)).filterMap read? =
      (read? item).toList ++ (split ',' right).filterMap read? := by
    rcases hright with rfl | ⟨items, rfl⟩
    · rw [List.append_nil, hone, hnil, List.append_nil]
    · rw [split_append hcomma (hitem.depthAfter_eq 0), List.filterMap_append, hone, ← List.nil_append (',' :: items),
        split_append hcomma rfl, List.filterMap_append, hnil, List.nil_append]
  rcases hleft with rfl | ⟨items, rfl, hdepth⟩
  · rw [List.nil_append, hbehind, hnil, List.nil_append]
  · rw [List.append_assoc, List.singleton_append, split_append hcomma hdepth, split_append hcomma hdepth,
      List.filterMap_append, List.filterMap_append, hbehind, hnil, List.append_nil]

/-- The value that an entry has from the last tag of a kind in its group: all of the written value to the end of the
item, without the white space at its end, or as if there were no such item if that is more than one line. This is the
trimmed value in just those cases where no white space stands at its head and there is no line break in it. -/
theorem declared_value (kind : ValueTag) {spec : String} {s : Segment} {e : Entry} (h : Declares spec s e)
    {left v right : List Char} {m : Margin} (hv : Nested (· ≠ ',') v) (hleft : BeforeItem left)
    (hright : BehindItem right) (htags : s.tags = some (left ++ (m.around (kind.key ++ v) ++ right)))
    (hlast : ∀ item ∈ split ',' right, kind.ofItem? item = none) :
    let earlier := (split ',' left).filterMap kind.ofItem?
    e ∈ parse spec ∧
    kind.Holds (if '\n' ∈ trimEnd v then earlier.getLast? else some (trimEnd v)) e ∧
    (earlier = [] → (kind.Holds (some (trim v)) e ↔ trimEnd v = trim v ∧ '\n' ∉ trim v)) := by
  intro earlier
  have hempty : kind.ofItem? [] = none := by cases kind <;> rfl
  have hafter : (split ',' right).filterMap kind.ofItem? = [] := List.filterMap_eq_nil_iff.mpr hlast
  have hvalue : kind.Holds (if '\n' ∈ trimEnd v then earlier.getLast? else some (trimEnd v)) e := by
    have hheld := kind.holds_of_declares h htags
    rw [filterMap_split_item hempty hleft (kind.nested_item hv m) hright, kind.ofItem?_around, hafter,
      List.append_nil] at hheld
    by_cases hline : '\n' ∈ trimEnd v
    · rw [if_pos hline, Option.toList_none, List.append_nil] at hheld
      rwa [if_pos hline]
    · rw [if_neg hline, Option.toList_some, List.getLast?_concat] at hheld
      rwa [if_neg hline]
  refine ⟨mem_parse_iff.mpr ⟨s, h⟩, hvalue, fun hfirst => ?_⟩
  rw [hfirst] at hvalue
  rw [hvalue.iff_eq]
  by_cases hline : '\n' ∈ trimEnd v
  · have hno : ¬(trimEnd v = trim v ∧ '\n' ∉ trim v) := fun ⟨htrim, hno⟩ => hno (htrim ▸ hline)
    simp [hline, hno]
  · have hyes : trimEnd v = trim v → '\n' ∉ trim v := fun htrim => htrim ▸ hline
    simpa [hline] using hyes

/-- The item is the second of three in the group of a child, with white space around it and a slash, a comma in
brackets and an equals sign in its value. -/
theorem declared_value_of_child :
    let spec := "a/b[c(err=x,  data=(1,[2])/=\\ ,err= y),d]"
    let e := declared "c" "/a/b/c" false ⟨some " y", some "(1,[2])/=\\".toUTF8.data.toList, true⟩
    Declares spec (Segment.ofText "c(err=x,  data=(1,[2])/=\\ ,err= y)".toList) e ∧ e ∈ parse spec ∧
    ValueTag.content.Holds (some (trim "(1,[2])/=\\ ".toList)) e := by
  intro spec e
  have hpieces : pieceSegments spec.toList =
      [⟨['a'], none, none⟩] ++ ⟨['b'], none, "c(err=x,  data=(1,[2])/=\\ ,err= y),d".toList⟩ :: [] := by decide
  have hdeclares : Declares spec (Segment.ofText "c(err=x,  data=(1,[2])/=\\ ,err= y)".toList) e :=
    .child hpieces (by decide) rfl (by decide) (by decide)
  have hone : Nested (fun _ => True) "2".toList := .plain rfl rfl trivial .nil
  have hinside : Nested (fun _ => True) "1,[2]".toList :=
    .plain rfl rfl trivial (.plain rfl rfl trivial (.enclosed .square hone))
  have hv : Nested (· ≠ ',') "(1,[2])/=\\ ".toList :=
    (Nested.enclosed .round hinside).append (Item.nested_key rfl)
  have hleft : BeforeItem "err=x,".toList := .inr ⟨"err=x".toList, by decide⟩
  have hright : BehindItem ",err= y".toList := .inr ⟨"err= y".toList, rfl⟩
  obtain ⟨hmem, -, htrimmed⟩ := declared_value .content hdeclares (m := ⟨⟨[' ', ' '], by decide⟩, ⟨[], by decide⟩⟩)
    hv hleft hright (by decide) (by decide)
  exact ⟨hdeclares, hmem, (htrimmed (by decide)).mpr (by decide)⟩

/-- White space behind the equals sign stays in the error, and a value of two lines gives no content. -/
theorem value_untrimmed_or_lost :
    let v := " x".toList
    let w := "x\ny".toList
    (parse "a(err= x)").map (·.error) ≠ [some (String.ofList (trim v))] ∧
    (parse "a(data=x\ny)").map (·.content) ≠ [some (String.ofList (trim w)).toUTF8.data.toList] := by
  decide

end FileFixture.Spec
