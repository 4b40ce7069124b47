import FileFixture.Fixture

/-!
The questions that code under test asks about single paths and directories. Paths are looked up as they are
given. Each answer comes with the records that the decision leaves, whoever may receive them; asking changes
nothing.
-/
namespace FileFixture

structure Answer (α : Type) where
  result : Except Fault α
  records : List Record

namespace Answer

def ok (a : α) : Answer α := ⟨.ok a, []⟩

/-- A refusal and the one record that tells of it. -/
def refuse (op msg path : String) (fault : Fault) : Answer α :=
  ⟨.error fault, [.refusal op msg path fault]⟩

def bind (a : Answer α) (next : α → Answer β) : Answer β :=
  match a.result with
  | .error fault => ⟨.error fault, a.records⟩
  | .ok x => ⟨(next x).result, a.records ++ (next x).records⟩

def map (g : α → β) (a : Answer α) : Answer β := ⟨a.result.map g, a.records⟩

@[simp] theorem bind_ok (a : α) (next : α → Answer β) : (ok a).bind next = next a := by
  simp [ok, bind]

@[simp] theorem bind_refuse (op msg path : String) (fault : Fault) (next : α → Answer β) :
    (refuse op msg path fault).bind next = refuse op msg path fault := rfl

end Answer

namespace Fixture

def presetError : String := "return pre-configured error"

/-- The entry at a path, unless its injected error speaks for it. -/
def lookup (f : Fixture) (op path : String) : Answer Entry :=
  match f.get? path with
  | none => .refuse op "return not found" path (.notFound path)
  | some e =>
    match e.fault? with
    | some fault => .refuse op presetError path fault
    | none => .ok e

def requireDir (f : Fixture) (op path : String) : Answer Entry :=
  (f.lookup op path).bind fun e =>
    if e.isDir then .ok e
    else .refuse op "return not a directory" path (.notADirectory path)

def stat (f : Fixture) (path : String) : Answer Entry := f.lookup "stat" path

/-- The content, empty where none is set. A directory has content like a file. -/
def content (f : Fixture) (path : String) : Answer (List UInt8) :=
  (f.lookup "read_file" path).map fun e => e.content.getD []

/-- The entries of a directory, each name once, up to the first with an injected error. -/
def children (dir : String) : (seen : List String) → List (String × Entry) → Answer (List Entry)
  | _, [] => .ok []
  | seen, (key, e) :: rest =>
    match Path.childName key dir with
    | none => children dir seen rest
    | some name =>
      if name ∈ seen then children dir seen rest
      else match e.fault? with
        | some fault => .refuse "read_dir" presetError key fault
        | none => (children dir (name :: seen) rest).map (e :: ·)

/-- The immediate children of a directory in the order of their paths. An injected error in one of them
refuses the whole listing. -/
def list (f : Fixture) (path : String) : Answer (List Entry) :=
  (f.requireDir "read_dir" path).bind fun _ =>
    (children path [] f.entries.bindings).bind fun es =>
      ⟨.ok es, [.note "read_dir" "return entries" path]⟩

/-- The path below the prefix for absolute paths. -/
def abs (f : Fixture) (path : String) : Answer String :=
  match f.absError with
  | some message => .refuse "abs" presetError path (.absPath message)
  | none => .ok (Path.concat f.absPrefix path)

def writeNote (size : Nat) (mode : UInt32) : String :=
  "ignore write of " ++ toString size ++ " bytes (mode " ++ String.ofList (Nat.toDigits 8 mode.toNat) ++ ")"

/-- Accepted, and without any effect but a record. -/
def write (_ : Fixture) (path : String) (bytes : List UInt8) (mode : UInt32) : Answer Unit :=
  ⟨.ok (), [.note "write_file" (writeNote bytes.length mode) path]⟩

end Fixture
end FileFixture
