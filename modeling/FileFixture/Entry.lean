import FileFixture.Fault
import FileFixture.Path
import FileFixture.Timestamp

/-!
One node of the tree: a file or a directory with what a look-up tells about it, and the error that it
answers with instead, if it has one.
-/
namespace FileFixture

structure Entry where
  name : String
  path : String
  isDir : Bool
  size : UInt64
  mode : UInt32
  modTime : Timestamp
  error : Option String
  content : Option (List UInt8)
  deriving DecidableEq

namespace Entry

/-- A file that is not placed yet: its path is empty. -/
def file (name : String) : Entry :=
  { name, path := "", isDir := false, size := 0, mode := 0, modTime := .epoch, error := none, content := none }

def dir (name : String) : Entry := { file name with isDir := true }

/-- The entry at the normal form of a path, named after its last component if it has no name yet. -/
def place (e : Entry) (path : String) : Entry :=
  let path := Path.normalize path
  { e with path, name := if e.name = "" then Path.baseName path else e.name }

def root : Entry := { dir Path.root with path := Path.root }

def isFile (e : Entry) : Bool := !e.isDir

def isRoot (e : Entry) : Bool := e.path == Path.root

def fault? (e : Entry) : Option Fault := e.error.map .injected

/-- What a look-up that finds the entry answers. -/
def outcome (e : Entry) : Except Fault Entry :=
  match e.error with
  | some message => .error (.injected message)
  | none => .ok e

end Entry
end FileFixture
