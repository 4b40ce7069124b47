import FileFixture.Entry
import FileFixture.Proofs.Spec.Nested

/-!
Outlines: what a path spec says, apart from how it is written down. An outline is a list of parts; each has a
name, the items of its tags, and children, which are files with tags of their own. The entries that it
declares are found with a stack of names and without any text.
-/
namespace FileFixture.Spec

/-- The name of a part. It may be empty, a dot or two dots. -/
structure Name where
  text : List Char
  trimmed : Text.trim text = text
  plain : ∀ c ∈ text, c ∉ ['/', '\\', '(', ')', '[', ']']

/-- The name of a child, which always declares an entry. -/
structure ChildName extends Name where
  no_comma : ',' ∉ text
  declares : text ∉ [[], ['.'], ['.', '.']]

/-- The value of a tag: trimmed, on one line, and with commas only inside of brackets. -/
structure Value where
  text : List Char
  trimmed : Text.trim text = text
  one_line : '\n' ∉ text
  nested : Nested (· ≠ ',') text

def errorKey : List Char := ['e', 'r', 'r', '=']
def contentKey : List Char := ['d', 'a', 't', 'a', '=']
def isDirKey : List Char := ['i', 's', 'd', 'i', 'r', '=']

/-- An item in a group of tags. A text that is no known key with a value on the same line says nothing. -/
inductive Item where
  | error (v : Value)
  | content (v : Value)
  | isDir (v : Value)
  | other (text : List Char) (trimmed : Text.trim text = text) (nested : Nested (· ≠ ',') text)
      (unknown : ∀ key ∈ [errorKey, contentKey, isDirKey], ∀ value, '\n' ∉ value → text ≠ key ++ value)

structure Child where
  name : ChildName
  items : List Item

structure Part where
  name : Name
  items : List Item
  children : List Child

namespace Item

def text : Item → List Char
  | error v => errorKey ++ v.text
  | content v => contentKey ++ v.text
  | isDir v => isDirKey ++ v.text
  | other text .. => text

def error? : Item → Option String
  | error v => some (String.ofList v.text)
  | _ => none

def content? : Item → Option (List UInt8)
  | content v => some (String.ofList v.text).toUTF8.data.toList
  | _ => none

/-- The one flag that has a meaning: `isdir=false`. -/
def isFile : Item → Bool
  | isDir v => v.text = "false".toList
  | _ => false

end Item

/-- Names from the root down, with a slash before each. The last name is on top of the stack. -/
def stackPath (stack : List (List Char)) : String := String.ofList ('/' :: ['/'].intercalate stack.reverse)

/-- The entry with the name on top of the stack. Of several errors or contents the last one counts. -/
def outlined (stack : List (List Char)) (name : List Char) (isDir : Bool) (items : List Item) : Entry :=
  { name := String.ofList name
    path := stackPath stack
    isDir
    size := 0
    mode := 0
    modTime := .epoch
    error := (items.filterMap Item.error?).getLast?
    content := (items.filterMap Item.content?).getLast? }

/-- The stack after a name was met. -/
def descend (stack : List (List Char)) : List Char → List (List Char)
  | [] => stack
  | ['.'] => stack
  | ['.', '.'] => stack.tail
  | name => name :: stack

namespace Part

/-- A part declares itself, unless its name only moves. -/
def own (stack : List (List Char)) (p : Part) : List Entry :=
  match p.name.text with
  | [] | ['.'] | ['.', '.'] => []
  | name => [outlined (name :: stack) name (!p.items.any Item.isFile) p.items]

/-- The children are declared below the place that the part leads to. -/
def below (stack : List (List Char)) (p : Part) : List Entry :=
  p.children.map fun c => outlined (c.name.text :: stack) c.name.text false c.items

end Part

/-- The entries of an outline in the order of their declaration. -/
def outlineEntries (stack : List (List Char)) : List Part → List Entry
  | [] => []
  | p :: rest =>
    let stack' := descend stack p.name.text
    p.own stack ++ p.below stack' ++ outlineEntries stack' rest

end FileFixture.Spec
