import FileFixture.Fixture

/-!
The description of a whole fixture, as it is kept in a file: specs, and options of which only the prefix and
the error for absolute paths may be left open. In JSON it is an object. Every member may be left out; one that
is not known is refused, and so is a second one of the same name.
-/
namespace FileFixture

structure Settings where
  specs : List String
  logging : Bool
  absPrefix : Option String
  absError : Option String
  deriving DecidableEq

namespace Settings

open Json (Reader Value)

def isBlankSpec (spec : String) : Bool := Text.allBlank spec.toList

/-- Refuses settings with a spec that is nothing but white space, naming the first. -/
def validate (s : Settings) : Except Fault Unit :=
  match s.specs.findIdx? isBlankSpec with
  | some i => .error (.settings ("spec " ++ toString i ++ " is empty"))
  | none => .ok ()

def options (s : Settings) : Options :=
  { logging := some s.logging, sink := none, absPrefix := s.absPrefix, absError := s.absError }

def toJson (s : Settings) : Value :=
  .object [
    ("specs", .array (s.specs.map .string)),
    ("logging", .bool s.logging),
    ("absPrefix", .ofOption .string s.absPrefix),
    ("absError", .ofOption .string s.absError)]

/-- The members read so far. -/
structure Draft where
  specs : Option (List String)
  logging : Option Bool
  absPrefix : Option (Option String)
  absError : Option (Option String)

def Draft.empty : Draft := ⟨none, none, none, none⟩

def members : List String := ["specs", "logging", "absPrefix", "absError"]

def readSpecs : Reader (List String) := Reader.list Reader.string

def readText? : Reader (Option String) := Reader.optional Reader.string

def Draft.accept (d : Draft) (key : String) : Except Json.Fault (Reader Draft) :=
  match key with
  | "specs" => Reader.once key d.specs do return { d with specs := some (← readSpecs) }
  | "logging" => Reader.once key d.logging do return { d with logging := some (← Reader.bool) }
  | "absPrefix" => Reader.once key d.absPrefix do return { d with absPrefix := some (← readText?) }
  | "absError" => Reader.once key d.absError do return { d with absError := some (← readText?) }
  | _ => .error (.mismatch (.unknownField key members))

def Draft.finish (d : Draft) : Except Json.Fault Settings :=
  .ok {
    specs := d.specs.getD []
    logging := d.logging.getD false
    absPrefix := d.absPrefix.getD none
    absError := d.absError.getD none }

def readInOrder : Reader Settings := do
  let wanted := "struct StubConfig with 4 elements"
  return {
    specs := ← Reader.elementD 0 [] readSpecs
    logging := ← Reader.elementD 1 false Reader.bool
    absPrefix := ← Reader.element 2 wanted readText?
    absError := ← Reader.element 3 wanted readText? }

def read : Reader Settings :=
  Reader.record "struct StubConfig" Draft.empty Draft.accept Draft.finish readInOrder

/-- Reads settings and validates them. -/
def ofJson (text : String) : Except Fault Settings :=
  match Reader.document read text with
  | .error fault => .error (.json fault)
  | .ok s => do
    s.validate
    return s

end Settings

namespace Fixture

def ofSettings (s : Settings) : Fixture := build s.specs s.options

def ofJson (text : String) : Except Fault Fixture := (Settings.ofJson text).map ofSettings

end Fixture
end FileFixture
