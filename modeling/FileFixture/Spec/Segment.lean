import FileFixture.Spec.Bracket
import FileFixture.Text.Blank

/-!
A segment of a path spec: a name, then a group of tags and a group of children in either order, each of
them optional. Text that does not have this form is a name as it stands.
-/
namespace FileFixture.Spec

structure Segment where
  name : List Char
  tags : Option (List Char)
  children : Option (List Char)
  deriving DecidableEq

/-- A group at the head of a text: its kind, what it holds, and the text after it. -/
def group? (text : List Char) : Option (Bracket × List Char × List Char) := do
  let b ← text.head?.bind Bracket.ofOpener?
  let last ← closing? text 0
  some (b, (text.take last).drop 1, text.drop (last + 1))

namespace Segment

/-- The whole text as a name. -/
def literal (text : List Char) : Segment := ⟨Text.trim text, none, none⟩

def ofGroup (name : List Char) : Bracket → List Char → Segment
  | .round, inside => ⟨name, some inside, none⟩
  | .square, inside => ⟨name, none, some inside⟩

def ofGroups (name : List Char) (first : Bracket) (inside second : List Char) : Segment :=
  match first with
  | .round => ⟨name, some inside, some second⟩
  | .square => ⟨name, some second, some inside⟩

/-- A name and one group, or two groups of different kinds, with nothing but white space after each. -/
def grouped? (text : List Char) : Option Segment := do
  let name := Text.trim (text.takeWhile (!isOpener ·))
  let (first, inside, rest) ← group? (text.dropWhile (!isOpener ·))
  if Text.allBlank rest then
    some (ofGroup name first inside)
  else
    let (second, inside', rest) ← group? (Text.trimStart rest)
    if first ≠ second ∧ Text.allBlank rest then
      some (ofGroups name first inside inside')
    else
      none

def ofText (text : List Char) : Segment := (grouped? text).getD (literal text)

/-- A name with a separator in it is no single component. -/
def spans (s : Segment) : Bool := s.name.any fun c => c == '/' || c == '\\'

/-- Names that lead somewhere but declare nothing there. -/
def isMove (s : Segment) : Bool := s.name == [] || s.name == ['.'] || s.name == ['.', '.']

end Segment
end FileFixture.Spec
