import FileFixture.Proofs.Spec.Outline

/-!
Layouts: all that is left to choose when an outline is written down. There may be white space around the whole
text, around names, groups, items and children; the two groups of a part may stand in either order; a group
that would be empty may be left out; and there may be a slash at the head.
-/
namespace FileFixture.Spec

/-- White space, or nothing. -/
structure Gap where
  text : List Char
  blank : Text.allBlank text = true

/-- What stands before and after a text. -/
structure Margin where
  before : Gap
  after : Gap

def Margin.around (m : Margin) (text : List Char) : List Char := m.before.text ++ text ++ m.after.text

/-- How items are written: the white space around each, and what is inside of a group without any item, if
such a group is written at all. -/
structure ItemsLayout where
  margin : Nat → Margin
  ifEmpty : Option Gap

structure ChildLayout where
  name : Margin
  items : ItemsLayout
  after : Gap

structure PartLayout where
  name : Margin
  tagsFirst : Bool
  items : ItemsLayout
  children : Nat → ChildLayout
  ifChildless : Option Gap
  between : Gap
  after : Gap

structure Layout where
  whole : Margin
  leadingSlash : Bool
  parts : Nat → PartLayout

/-- The inside of a group: its members with commas between them. -/
def groupInside (ifEmpty : Option Gap) : List (List Char) → Option (List Char)
  | [] => ifEmpty.map Gap.text
  | members => some ([','].intercalate members)

/-- A group with its brackets, or nothing. -/
def enclose (b : Bracket) : Option (List Char) → List Char
  | none => []
  | some inside => b.opener :: (inside ++ [b.closer])

namespace ItemsLayout

def inside (l : ItemsLayout) (items : List Item) : Option (List Char) :=
  groupInside l.ifEmpty (items.mapIdx fun i x => (l.margin i).around x.text)

end ItemsLayout

namespace ChildLayout

def write (l : ChildLayout) (c : Child) : List Char :=
  l.name.around c.name.text ++ enclose .round (l.items.inside c.items) ++ l.after.text

end ChildLayout

namespace PartLayout

def childrenInside (l : PartLayout) (children : List Child) : Option (List Char) :=
  groupInside l.ifChildless (children.mapIdx fun i c => (l.children i).write c)

def write (l : PartLayout) (p : Part) : List Char :=
  let tags := enclose .round (l.items.inside p.items)
  let children := enclose .square (l.childrenInside p.children)
  let (first, second) := if l.tagsFirst then (tags, children) else (children, tags)
  l.name.around p.name.text ++ first ++ l.between.text ++ second ++ l.after.text

end PartLayout

namespace Layout

/-- The text of an outline. -/
def write (l : Layout) (outline : List Part) : String :=
  let parts := outline.mapIdx fun i p => (l.parts i).write p
  let slash := if l.leadingSlash then ['/'] else []
  String.ofList (l.whole.around (slash ++ ['/'].intercalate parts))

end Layout
end FileFixture.Spec
