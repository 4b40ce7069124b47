import FileFixture.Entry
import FileFixture.Spec.Tags

/-!
A path spec declares entries. Its segments, separated by slashes, lead from the root down: each declares an
entry below the one before it and, after that, the children in its group. A segment without a name, `.` and
`..` only move. A segment whose name would span several components is passed over with its children.
-/
namespace FileFixture.Spec

def declared (name path : String) (isDir : Bool) (tags : Tags) : Entry :=
  { Entry.file name with path, isDir, error := tags.error, content := tags.content }

namespace Segment

def nameText (s : Segment) : String := String.ofList s.name

def target (s : Segment) (cursor : String) : String := Path.join cursor s.nameText

/-- The entry that a child in a group declares below `dir`; children are files whatever their tags say. -/
def child? (dir : String) (s : Segment) : Option Entry :=
  if s.isMove ∨ s.spans then none
  else some (declared s.nameText (s.target dir) false (Tags.ofGroup s.tags))

def childEntries (dir : String) (s : Segment) : List Entry :=
  match s.children with
  | none => []
  | some text => (split ',' text).filterMap fun item => child? dir (ofText item)

def ownEntries (cursor : String) (s : Segment) : List Entry :=
  if s.isMove then []
  else
    let tags := Tags.ofGroup s.tags
    [declared s.nameText (s.target cursor) tags.isDir tags]

/-- All that the segment declares from where the cursor stands. -/
def entries (cursor : String) (s : Segment) : List Entry :=
  if s.spans then []
  else s.ownEntries cursor ++ s.childEntries (s.target cursor)

/-- Where the cursor stands after the segment. -/
def advance (cursor : String) (s : Segment) : String :=
  if s.spans then cursor else s.target cursor

theorem entries_of_spans {s : Segment} (h : s.spans = true) (cursor : String) : s.entries cursor = [] := by
  rw [entries, if_pos h]

theorem advance_of_spans {s : Segment} (h : s.spans = true) (cursor : String) : s.advance cursor = cursor := by
  rw [advance, if_pos h]

theorem mem_ownEntries_iff {s : Segment} {e : Entry} {cursor : String} :
    e ∈ s.ownEntries cursor ↔ s.isMove = false ∧
      e = declared s.nameText (s.target cursor) (Tags.ofGroup s.tags).isDir (Tags.ofGroup s.tags) := by
  cases hm : s.isMove <;> simp [ownEntries, hm]

theorem child?_eq_some_iff {s : Segment} {e : Entry} {dir : String} :
    child? dir s = some e ↔ (s.isMove = false ∧ s.spans = false) ∧
      e = declared s.nameText (s.target dir) false (Tags.ofGroup s.tags) := by
  cases hm : s.isMove <;> cases hs : s.spans <;> simp [child?, hm, hs, eq_comm]

theorem mem_childEntries_iff {s : Segment} {e : Entry} {dir : String} :
    e ∈ s.childEntries dir ↔
      ∃ group, s.children = some group ∧ ∃ item ∈ split ',' group, child? dir (ofText item) = some e := by
  cases hc : s.children <;> simp [childEntries, hc]

theorem mem_entries_iff {s : Segment} {e : Entry} {cursor : String} :
    e ∈ s.entries cursor ↔
      s.spans = false ∧ (e ∈ s.ownEntries cursor ∨ e ∈ s.childEntries (s.target cursor)) := by
  cases hs : s.spans <;> simp [entries, hs]

end Segment

def declare (cursor : String) : List Segment → List Entry
  | [] => []
  | s :: rest => s.entries cursor ++ declare (s.advance cursor) rest

/-- Where the cursor stands after all segments. -/
def cursorAfter (cursor : String) (segments : List Segment) : String :=
  segments.foldl Segment.advance cursor

@[simp] theorem declare_nil (cursor : String) : declare cursor [] = [] := rfl
@[simp] theorem declare_cons (cursor : String) (s : Segment) (rest : List Segment) :
    declare cursor (s :: rest) = s.entries cursor ++ declare (s.advance cursor) rest := rfl

@[simp] theorem cursorAfter_nil (cursor : String) : cursorAfter cursor [] = cursor := rfl
@[simp] theorem cursorAfter_cons (cursor : String) (s : Segment) (rest : List Segment) :
    cursorAfter cursor (s :: rest) = cursorAfter (s.advance cursor) rest := rfl

theorem declare_append (cursor : String) (a b : List Segment) :
    declare cursor (a ++ b) = declare cursor a ++ declare (cursorAfter cursor a) b := by
  induction a generalizing cursor with
  | nil => rfl
  | cons s a ih => simp [ih, List.append_assoc]

/-- The text without the white space around it and without one slash at its head. -/
def body (spec : List Char) : List Char :=
  match Text.trim spec with
  | '/' :: rest => rest
  | text => text

def segments (spec : List Char) : List Segment := (split '/' (body spec)).map Segment.ofText

/-- The entries of a spec in the order of their declaration. -/
def parse (spec : String) : List Entry := declare Path.root (segments spec.toList)

def parseAll (specs : List String) : List Entry := specs.flatMap parse

@[simp] theorem parseAll_nil : parseAll [] = [] := rfl
@[simp] theorem parseAll_append (a b : List String) :
    parseAll (a ++ b) = parseAll a ++ parseAll b := List.flatMap_append

end FileFixture.Spec
