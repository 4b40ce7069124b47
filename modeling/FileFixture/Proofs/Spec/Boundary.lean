import FileFixture.Proofs.Spec.Composition
import FileFixture.Proofs.Spec.Grouped

/-!
The slash behind a segment. A segment with groups ends for the one count where its groups end, each at a bracket of its
own kind, and for the other, which knows only one kind of bracket, where the depth is zero. Where the two agree the
slash parts the segment from what follows, as it does behind a name alone. Where they do not, a bracket of the other
kind has been left open in a group; it takes the slash in, and the name that comes of it is no single component.
-/
namespace FileFixture.Spec

open Text (allBlank trimStart)

namespace Segment

variable {raw : List Char} {s : Segment}

/-- The text is a name alone, or it is taken apart into a name and groups, each of which has an end. -/
def Resolved (raw : List Char) : Prop :=
  (∀ c ∈ raw, isOpener c = false) ∨ (ofText raw).tags ≠ none ∨ (ofText raw).children ≠ none

theorem Resolved.plain_or_grouped (h : Resolved raw) :
    (∀ c ∈ raw, isOpener c = false) ∨ Grouped raw (ofText raw) := by
  rcases h with hplain | hgroups
  · exact Or.inl hplain
  · exact Or.inr (grouped_of_groups hgroups)

theorem isBlank_slash : Text.isBlank '/' = false := by decide

theorem trimStart_slash {rest : List Char} (h : allBlank rest = true) (more : List Char) :
    trimStart (rest ++ '/' :: more) = '/' :: more := by
  rw [Text.trimStart_append, if_pos h, Text.trimStart_cons, isBlank_slash]
  rfl

/-- Behind the last group there is only white space, and a slash is none. -/
theorem grouped?_append_slash (h : Grouped raw s) (more : List Char) : grouped? (raw ++ '/' :: more) = none := by
  have hslash : group? ('/' :: more) = none := by rw [group?_cons]; rfl
  cases h with
  | one hpre hi hrest =>
    simp only [List.append_assoc, List.cons_append]
    simp [grouped?, takeWhile_name hpre, dropWhile_name hpre, group?_enclosed hi, isBlank_slash, trimStart_slash hrest,
      hslash]
  | two _ hpre hi hbetween hi' hrest =>
    simp only [List.append_assoc, List.cons_append]
    simp [grouped?, takeWhile_name hpre, dropWhile_name hpre, group?_enclosed hi, trimStart_group hbetween,
      isBlank_opener, group?_enclosed hi', isBlank_slash]

/-- The whole becomes the name, and the slash is in it. -/
theorem spans_append_slash (h : Grouped raw s) (more : List Char) : (ofText (raw ++ '/' :: more)).spans = true := by
  have hmem : '/' ∈ Text.trim (raw ++ '/' :: more) := (Text.mem_trim isBlank_slash).mpr (by simp)
  rw [ofText, grouped?_append_slash h, Option.getD_none]
  exact List.any_eq_true.mpr ⟨'/', hmem, rfl⟩

end Segment

theorem depthAfter_name {pre : List Char} (h : ∀ c ∈ pre, isOpener c = false) : depthAfter 0 pre = 0 := by
  induction pre with
  | nil => rfl
  | cons c pre ih =>
    obtain ⟨hc, hpre⟩ := List.forall_mem_cons.mp h
    have hdeepen : deepen 0 c = 0 := by simp [deepen, hc]
    rw [depthAfter_cons, hdeepen, ih hpre]

/-- Groups with nested insides leave nothing open. -/
theorem depthAfter_grouped {raw : List Char} {s : Segment} (h : Segment.Grouped raw s)
    (hn : ∀ inside, s.tags = some inside ∨ s.children = some inside → Nested (fun _ => True) inside) :
    depthAfter 0 raw = 0 := by
  have hblank : ∀ {w}, allBlank w = true → Nested (fun _ => True) w := fun hw => .of_allBlank hw fun _ _ => trivial
  cases h with
  | @one pre inside rest b hpre _ hrest =>
    have hi : Nested (fun _ => True) inside := hn inside (by cases b <;> simp [Segment.ofGroup])
    rw [depthAfter_append, depthAfter_name hpre, (Nested.group b hi (hblank hrest)).depthAfter_eq]
  | @two pre inside between inside' rest a b _ hpre _ hbetween _ hrest =>
    have hi : Nested (fun _ => True) inside := hn inside (by cases a <;> simp [Segment.ofGroups])
    have hi' : Nested (fun _ => True) inside' := hn inside' (by cases a <;> simp [Segment.ofGroups])
    have hrest' := (hblank hbetween).append (.group b hi' (hblank hrest))
    rw [depthAfter_append, depthAfter_name hpre, (Nested.group a hi hrest').depthAfter_eq]

section Slash

variable {raw : List Char}

/-- A bracket that is still open takes in the slash behind the text. -/
theorem split_append_slash_open (hone : split '/' raw = [raw]) (hopen : depthAfter 0 raw ≠ 0) (rest : List Char) :
    ∃ more after, split '/' (raw ++ '/' :: rest) = (raw ++ '/' :: more) :: after := by
  rw [split, splitFrom_append_of_whole hone, splitFrom_cons, if_neg fun h => hopen h.2.1]
  cases hpieces : splitFrom '/' (deepen (depthAfter 0 raw) '/') rest with
  | nil => exact absurd hpieces (splitFrom_ne_nil '/' _ rest)
  | cons more after => exact ⟨more, after, rfl⟩

theorem split_append_slash_iff (hone : split '/' raw = [raw]) (rest : List Char) :
    split '/' (raw ++ '/' :: rest) = raw :: split '/' rest ↔ depthAfter 0 raw = 0 := by
  constructor
  · intro h
    by_contra hopen
    obtain ⟨more, after, hsplit⟩ := split_append_slash_open hone hopen rest
    have hfirst : raw ++ '/' :: more = raw := (List.cons.inj (hsplit.symm.trans h)).1
    simp at hfirst
  · intro h
    rw [split_append (by decide) h, hone, List.singleton_append]

end Slash

/-- A segment that is a piece by itself is parted by a slash from whatever follows just when its brackets, both kinds
counted together, come out even, and nested insides of its groups are enough for that. It then declares what it
declares alone. Otherwise the slash becomes part of a name, and the piece that begins with the segment declares
nothing. -/
theorem slash_behind_segment {raw : String} (hone : split '/' raw.toList = [raw.toList])
    (hraw : Segment.Resolved raw.toList) (rest : String) :
    let s := Segment.ofText raw.toList
    let both := raw ++ "/" ++ rest
    (split '/' both.toList = raw.toList :: split '/' rest.toList ↔ depthAfter 0 raw.toList = 0) ∧
    (depthAfter 0 raw.toList = 0 → parse raw <+: parse both ∧
      parse both = s.entries Path.root ++ declare (s.advance Path.root) (pieceSegments rest.toList)) ∧
    ((∀ inside, s.tags = some inside ∨ s.children = some inside → Nested (fun _ => True) inside) →
      depthAfter 0 raw.toList = 0) ∧
    (depthAfter 0 raw.toList ≠ 0 → ∃ more after,
      split '/' both.toList = (raw.toList ++ '/' :: more) :: after ∧
      (Segment.ofText (raw.toList ++ '/' :: more)).spans = true ∧
      parse both = declare Path.root (after.map Segment.ofText)) := by
  intro s both
  have hform : (∀ c ∈ raw.toList, isOpener c = false) ∨ Segment.Grouped raw.toList s := hraw.plain_or_grouped
  have htext : both.toList = raw.toList ++ '/' :: rest.toList := by simp [both]
  have hiff := split_append_slash_iff hone rest.toList
  refine ⟨by rw [htext, hiff], fun heven => ⟨?_, ?_⟩, fun hnested => ?_, fun hopen => ?_⟩
  · rw [parse_append heven]
    exact List.prefix_append _ _
  · rw [parse_eq_declare, pieceSegments, htext, hiff.mpr heven, List.map_cons, declare_cons]
    rfl
  · rcases hform with hplain | hgrouped
    · exact depthAfter_name hplain
    · exact depthAfter_grouped hgrouped hnested
  · obtain ⟨more, after, hsplit⟩ := split_append_slash_open hone hopen rest.toList
    have hgrouped := hform.resolve_left fun hplain => hopen (depthAfter_name hplain)
    have hspans := Segment.spans_append_slash hgrouped more
    refine ⟨more, after, by rw [htext, hsplit], hspans, ?_⟩
    rw [parse_eq_declare, pieceSegments, htext, hsplit, List.map_cons, declare_cons, Segment.entries_of_spans hspans,
      Segment.advance_of_spans hspans, List.nil_append]

/-- In the first text the counts differ and both come out even; in the second, a square bracket is left open in the
group of tags, and it takes in all up to the piece behind its closer. -/
theorem slash_behind_segment_even_and_open :
    let even := "d](data=a]b) [c(err=1/2)] "
    let opened := "a(err=x[)"
    (split '/' (even ++ "/" ++ "e[f").toList = [even.toList, "e[f".toList] ∧ parse even <+: parse (even ++ "/" ++ "e[f")) ∧
    (split '/' (opened ++ "/" ++ "b]/c").toList ≠ opened.toList :: split '/' "b]/c".toList ∧
      ∃ (more : List Char) (after : List (List Char)),
        split '/' (opened ++ "/" ++ "b]/c").toList = (opened.toList ++ '/' :: more) :: after ∧
        (Segment.ofText (opened.toList ++ '/' :: more)).spans = true ∧
        parse (opened ++ "/" ++ "b]/c") = declare Path.root (after.map Segment.ofText)) := by
  intro even opened
  have heven : depthAfter 0 even.toList = 0 := by decide
  have hopened : depthAfter 0 opened.toList ≠ 0 := by decide
  have hone : split '/' even.toList = [even.toList] := by decide
  have hone' : split '/' opened.toList = [opened.toList] := by decide
  obtain ⟨hsplit, hparse, -, -⟩ := slash_behind_segment hone (.inr (by decide)) "e[f"
  obtain ⟨hsplit', -, -, hlost⟩ := slash_behind_segment hone' (.inr (by decide)) "b]/c"
  exact ⟨⟨(hsplit.mpr heven).trans (by decide), (hparse heven).1⟩, mt hsplit'.mp hopened, hlost hopened⟩

/-- By itself the text is one piece with a group of tags; with a slash and another segment behind it, it is not parted
from that segment, and the entry that it declares alone is gone. -/
theorem slash_behind_open_group :
    let raw := "a(err=x[)"
    split '/' raw.toList = [raw.toList] ∧ Segment.ofText raw.toList = ⟨['a'], some "err=x[".toList, none⟩ ∧
    split '/' (raw ++ "/" ++ "b").toList ≠ raw.toList :: split '/' "b".toList ∧
    ¬parse raw <+: parse (raw ++ "/" ++ "b") := by
  decide

end FileFixture.Spec
