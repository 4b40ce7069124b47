import FileFixture.Entry
import FileFixture.Json.Reader

/-!
Entries as JSON objects of eight members. Content is a sequence of bytes; an entry without an error or
without content has `null` there, and in reading may leave the member out.
-/
namespace FileFixture.Entry

open Json (Reader Value)

def toJson (e : Entry) : Value :=
  .object [
    ("name", .string e.name),
    ("path", .string e.path),
    ("isDir", .bool e.isDir),
    ("size", .number e.size.toNat),
    ("mode", .number e.mode.toNat),
    ("modTime", .string e.modTime.toText),
    ("error", .ofOption .string e.error),
    ("content", .ofOption (fun bytes => .array (bytes.map fun b => .number b.toNat)) e.content)]

/-- The members read so far. -/
structure Draft where
  name : Option String
  path : Option String
  isDir : Option Bool
  size : Option UInt64
  mode : Option UInt32
  modTime : Option Timestamp
  error : Option (Option String)
  content : Option (Option (List UInt8))

def Draft.empty : Draft := ⟨none, none, none, none, none, none, none, none⟩

def readSize : Reader UInt64 := UInt64.ofNat <$> Reader.natural (Nat.pow 2 64) "u64"

def readMode : Reader UInt32 := UInt32.ofNat <$> Reader.natural (Nat.pow 2 32) "u32"

def readTime : Reader Timestamp := do
  let text ← Reader.stringAs "an RFC 3339 formatted date and time string"
  match Timestamp.ofText text with
  | .ok t => pure t
  | .error fault => Reader.mismatch (.time fault)

def readError : Reader (Option String) := Reader.optional Reader.string

def readContent : Reader (Option (List UInt8)) :=
  Reader.optional (Reader.list (UInt8.ofNat <$> Reader.natural (Nat.pow 2 8) "u8"))

/-- Members of other names are passed over. -/
def Draft.accept (d : Draft) (key : String) : Except Json.Fault (Reader Draft) :=
  match key with
  | "name" => Reader.once key d.name do return { d with name := some (← Reader.string) }
  | "path" => Reader.once key d.path do return { d with path := some (← Reader.string) }
  | "isDir" => Reader.once key d.isDir do return { d with isDir := some (← Reader.bool) }
  | "size" => Reader.once key d.size do return { d with size := some (← readSize) }
  | "mode" => Reader.once key d.mode do return { d with mode := some (← readMode) }
  | "modTime" => Reader.once key d.modTime do return { d with modTime := some (← readTime) }
  | "error" => Reader.once key d.error do return { d with error := some (← readError) }
  | "content" => Reader.once key d.content do return { d with content := some (← readContent) }
  | _ => .ok do Reader.skipValue; return d

def Draft.finish (d : Draft) : Except Json.Fault Entry := do
  return {
    name := ← Reader.required "name" d.name
    path := ← Reader.required "path" d.path
    isDir := ← Reader.required "isDir" d.isDir
    size := ← Reader.required "size" d.size
    mode := ← Reader.required "mode" d.mode
    modTime := ← Reader.required "modTime" d.modTime
    error := d.error.getD none
    content := d.content.getD none }

def readInOrder : Reader Entry := do
  let wanted := "struct Entry with 8 elements"
  return {
    name := ← Reader.element 0 wanted Reader.string
    path := ← Reader.element 1 wanted Reader.string
    isDir := ← Reader.element 2 wanted Reader.bool
    size := ← Reader.element 3 wanted readSize
    mode := ← Reader.element 4 wanted readMode
    modTime := ← Reader.element 5 wanted readTime
    error := ← Reader.element 6 wanted readError
    content := ← Reader.element 7 wanted readContent }

def read : Reader Entry :=
  Reader.record "struct Entry" Draft.empty Draft.accept Draft.finish readInOrder

def ofJson (text : String) : Except Json.Fault Entry := Reader.document read text

/-- A JSON array of entries. -/
def listOfJson (text : String) : Except Json.Fault (List Entry) :=
  Reader.document (Reader.list read) text

end FileFixture.Entry
