import FileFixture.Spec.Segment

/-!
The tags of a segment: `err=` gives it an error, `data=` content, and `isdir=false` makes it a file. A value
runs to the end of its item. Items of another form, and those with a line break in them, say nothing.
-/
namespace FileFixture.Spec

inductive Tag where
  | error (message : List Char)
  | content (text : List Char)
  | isDir (flag : List Char)
  deriving DecidableEq

/-- Reads an item from which the white space around it has been taken. -/
def Tag.ofItem? (item : List Char) : Option Tag :=
  if '\n' ∈ item then none
  else match item with
    | 'e' :: 'r' :: 'r' :: '=' :: value => some (.error value)
    | 'd' :: 'a' :: 't' :: 'a' :: '=' :: value => some (.content value)
    | 'i' :: 's' :: 'd' :: 'i' :: 'r' :: '=' :: value => some (.isDir value)
    | _ => none

/-- What the tags of a segment come to. -/
structure Tags where
  error : Option String
  content : Option (List UInt8)
  isDir : Bool
  deriving DecidableEq

namespace Tags

def absent : Tags := ⟨none, none, true⟩

def utf8 (text : List Char) : List UInt8 := text.flatMap String.utf8EncodeChar

/-- A later error or content replaces an earlier one; what has become a file stays one. -/
def add (t : Tags) : Tag → Tags
  | .error message => { t with error := some (String.ofList message) }
  | .content text => { t with content := some (utf8 text) }
  | .isDir flag => if Text.trim flag = "false".toList then { t with isDir := false } else t

def ofItems (items : List (List Char)) : Tags :=
  (items.filterMap fun item => Tag.ofItem? (Text.trim item)).foldl add absent

def ofText (text : List Char) : Tags := ofItems (split ',' text)

/-- The tags of a group, if there is one. -/
def ofGroup : Option (List Char) → Tags
  | none => absent
  | some text => ofText text

end Tags
end FileFixture.Spec
