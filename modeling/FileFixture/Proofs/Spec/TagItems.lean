import FileFixture.Proofs.Spec.Groups
import FileFixture.Spec.Tags

/-!
What a group of tags comes to. Each item is read as the tag that it was written from, and one item after the
other gives the last error, the last content, and a file if any item asks for one.
-/
namespace FileFixture.Spec

open Text (trim)

theorem utf8_eq_toUTF8 (text : List Char) :
    Tags.utf8 text = (String.ofList text).toUTF8.data.toList := by
  simp [Tags.utf8, String.toUTF8, List.utf8Encode]

/-- Only a known key with a value on the same line is read as a tag. -/
theorem key_of_ofItem? {text : List Char} {tag : Tag} (h : Tag.ofItem? text = some tag) :
    ∃ key ∈ [errorKey, contentKey, isDirKey], ∃ value, '\n' ∉ value ∧ text = key ++ value := by
  unfold Tag.ofItem? at h
  split at h
  case isTrue => cases h
  case isFalse hline =>
    split at h
    case h_1 value => exact ⟨errorKey, by simp, value, fun hm => hline (by simp [hm]), rfl⟩
    case h_2 value => exact ⟨contentKey, by simp, value, fun hm => hline (by simp [hm]), rfl⟩
    case h_3 value => exact ⟨isDirKey, by simp, value, fun hm => hline (by simp [hm]), rfl⟩
    case h_4 => cases h

/-- The kinds of tags that have a value of their own. -/
inductive ValueTag where
  | error
  | content
  deriving DecidableEq

namespace ValueTag

def key : ValueTag → List Char
  | error => errorKey
  | content => contentKey

/-- The value of a tag, if the tag is of this kind. -/
def value? : ValueTag → Tag → Option (List Char)
  | error, .error message => some message
  | content, .content text => some text
  | _, _ => none

@[simp] theorem value?_error (message : List Char) : error.value? (.error message) = some message := rfl
@[simp] theorem value?_content (text : List Char) : content.value? (.content text) = some text := rfl
@[simp] theorem error_value?_content (text : List Char) : error.value? (.content text) = none := rfl
@[simp] theorem content_value?_error (message : List Char) : content.value? (.error message) = none := rfl
@[simp] theorem value?_isDir (kind : ValueTag) (flag : List Char) : kind.value? (.isDir flag) = none := by
  cases kind <;> rfl

end ValueTag

/-- Does the tag make a file of its segment? -/
def Tag.isFile : Tag → Bool
  | .isDir flag => trim flag = "false".toList
  | _ => false

theorem add_isDir (t : Tags) (flag : List Char) :
    t.add (.isDir flag) = { t with isDir := t.isDir && !(Tag.isDir flag).isFile } := by
  by_cases hf : trim flag = "false".toList
  · have hfile : (Tag.isDir flag).isFile = true := decide_eq_true hf
    rw [Tags.add, if_pos hf, hfile, Bool.not_true, Bool.and_false]
  · have hfile : (Tag.isDir flag).isFile = false := decide_eq_false hf
    rw [Tags.add, if_neg hf, hfile, Bool.not_false, Bool.and_true]

/-- Of the values of one kind the last is kept, and one flag is enough. -/
theorem foldl_add (tags : List Tag) :
    tags.foldl Tags.add Tags.absent =
      { error := (tags.filterMap ValueTag.error.value?).getLast?.map String.ofList
        content := (tags.filterMap ValueTag.content.value?).getLast?.map Tags.utf8
        isDir := !tags.any Tag.isFile } := by
  induction tags using List.reverseRecOn with
  | nil => rfl
  | append_singleton tags t ih =>
    rw [List.foldl_append, ih]
    cases t with
    | error message => simp [Tags.add, Tag.isFile]
    | content text => simp [Tags.add, Tag.isFile]
    | isDir flag => simp [add_isDir]

namespace Item

def tag? : Item → Option Tag
  | error v => some (.error v.text)
  | content v => some (.content v.text)
  | isDir v => some (.isDir v.text)
  | other .. => none

theorem error?_eq (x : Item) : x.error? = x.tag?.bind fun t => (ValueTag.error.value? t).map String.ofList := by
  cases x <;> rfl

theorem content?_eq (x : Item) : x.content? = x.tag?.bind fun t => (ValueTag.content.value? t).map Tags.utf8 := by
  cases x with
  | content v => exact congrArg some (utf8_eq_toUTF8 v.text).symm
  | _ => rfl

theorem isFile_eq (x : Item) : x.isFile = x.tag?.any Tag.isFile := by
  cases x with
  | isDir v => simp only [isFile, tag?, Option.any_some, Tag.isFile, v.trimmed]
  | _ => rfl

theorem ofItem?_text (x : Item) : Tag.ofItem? x.text = x.tag? := by
  cases x with
  | error v => simp [Tag.ofItem?, text, errorKey, tag?, v.one_line]
  | content v => simp [Tag.ofItem?, text, contentKey, tag?, v.one_line]
  | isDir v => simp [Tag.ofItem?, text, isDirKey, tag?, v.one_line]
  | other text _ _ unknown =>
    change Tag.ofItem? text = none
    cases h : Tag.ofItem? text with
    | none => rfl
    | some tag =>
      obtain ⟨key, hkey, value, hvalue, htext⟩ := key_of_ofItem? h
      exact absurd htext (unknown key hkey value hvalue)

theorem trim_text (x : Item) : trim x.text = x.text := by
  cases x with
  | error v => exact Text.trim_append_of_trimmed (by decide) (by decide) (by decide) v.trimmed
  | content v => exact Text.trim_append_of_trimmed (by decide) (by decide) (by decide) v.trimmed
  | isDir v => exact Text.trim_append_of_trimmed (by decide) (by decide) (by decide) v.trimmed
  | other _ trimmed => exact trimmed

theorem nested_key {key : List Char}
    (h : key.all (fun c => !isOpener c && !isCloser c && c != ',') = true) : Nested (· ≠ ',') key := by
  refine .of_plain fun c hc => ?_
  have hc' := List.all_eq_true.mp h c hc
  simpa [and_assoc] using hc'

theorem nested_text (x : Item) : Nested (· ≠ ',') x.text := by
  cases x with
  | error v => exact (nested_key rfl).append v.nested
  | content v => exact (nested_key rfl).append v.nested
  | isDir v => exact (nested_key rfl).append v.nested
  | other _ _ nested => exact nested

end Item

/-- The tags that a list of items stands for. -/
def itemTags (items : List Item) : Tags :=
  { error := (items.filterMap Item.error?).getLast?
    content := (items.filterMap Item.content?).getLast?
    isDir := !items.any Item.isFile }

theorem foldl_add_tags (items : List Item) :
    (items.filterMap Item.tag?).foldl Tags.add Tags.absent = itemTags items := by
  rw [foldl_add, itemTags, funext Item.error?_eq, funext Item.content?_eq, funext Item.isFile_eq,
    ← List.getLast?_map, ← List.getLast?_map, List.map_filterMap, List.map_filterMap, List.filterMap_filterMap,
    List.filterMap_filterMap, List.any_filterMap]
  rfl

/-- What is read does not depend on the place if that is so for each member. -/
theorem filterMap_mapIdx {α β γ : Type} {f : Nat → α → β} {g : β → Option γ} {h : α → Option γ}
    (hread : ∀ i x, g (f i x) = h x) (xs : List α) : (xs.mapIdx f).filterMap g = xs.filterMap h := by
  induction xs generalizing f with
  | nil => rfl
  | cons x xs ih =>
    rw [List.mapIdx_cons, List.filterMap_cons, List.filterMap_cons, hread, ih fun i => hread (i + 1)]

theorem ofItems_mapIdx (margin : Nat → Margin) (items : List Item) :
    Tags.ofItems (items.mapIdx fun i x => (margin i).around x.text) = itemTags items := by
  have hread : ∀ i (x : Item), Tag.ofItem? (trim ((margin i).around x.text)) = x.tag? := by
    intro i x
    rw [trim_around, x.trim_text, x.ofItem?_text]
  rw [Tags.ofItems, filterMap_mapIdx (g := fun item => Tag.ofItem? (trim item)) hread, foldl_add_tags]

theorem nested_items (margin : Nat → Margin) (items : List Item) :
    ∀ t ∈ items.mapIdx fun i x => (margin i).around x.text, Nested (· ≠ ',') t := by
  intro t ht
  obtain ⟨i, hi, rfl⟩ := List.mem_mapIdx.mp ht
  exact (items[i]).nested_text.around (Text.ne_of_isBlank (by decide)) _

theorem nested_inside (l : ItemsLayout) (items : List Item) :
    ∀ i ∈ l.inside items, Nested (fun _ => True) i := nested_groupInside (nested_items l.margin items)

/-- A group of items is read as its tags, whether it is written or left out. -/
theorem ofGroup_inside (l : ItemsLayout) (items : List Item) :
    Tags.ofGroup (l.inside items) = itemTags items := by
  cases h : l.inside items with
  | none =>
    obtain rfl : items = [] := by simpa using members_of_groupInside_none h
    rfl
  | some inside =>
    rw [Tags.ofGroup, Tags.ofText]
    rcases split_groupInside (nested_items l.margin items) h with hs | ⟨hn, g, hs⟩
    · rw [hs, ofItems_mapIdx]
    · obtain rfl : items = [] := by simpa using hn
      rw [hs]
      simp [Tags.ofItems, Text.trim_eq_nil g.blank, Tag.ofItem?, itemTags, Tags.absent]

end FileFixture.Spec
