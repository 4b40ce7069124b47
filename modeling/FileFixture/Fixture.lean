import FileFixture.Catalog
import FileFixture.Entry.Json
import FileFixture.Log.Logbook
import FileFixture.Spec.Declaration

/-!
A fixture: a tree of entries kept by their paths, the settings for absolute paths, and a logger. There is no
other record of what is a directory of what than the paths themselves. The root is always there, and no
entry is ever taken out.
-/
namespace FileFixture

structure Fixture where
  entries : Catalog Entry
  absPrefix : String
  absError : Option String
  logger : Logger
  deriving DecidableEq

/-- Settings to be changed; those left out stay as they are. -/
structure Options where
  logging : Option Bool
  sink : Option Sink
  absPrefix : Option String
  absError : Option String
  deriving DecidableEq

def Options.unset : Options := ⟨none, none, none, none⟩

namespace Fixture

def empty : Fixture :=
  { entries := Catalog.empty.insert Path.root Entry.root, absPrefix := "", absError := none,
    logger := .disabled }

/-- Whether an entry may be put in: the root stays what it is, and every entry has a path. -/
def accepts (e : Entry) : Bool := e.path != "" && e.path != Path.root

/-- Puts an entry at its path, in place of the one that is there. -/
def insert (f : Fixture) (e : Entry) : Fixture :=
  if accepts e then { f with entries := f.entries.insert e.path e } else f

def extend (f : Fixture) (es : List Entry) : Fixture := es.foldl insert f

def addSpec (f : Fixture) (spec : String) : Fixture := f.extend (Spec.parse spec)

def addSpecs (f : Fixture) (specs : List String) : Fixture := specs.foldl addSpec f

@[simp] theorem extend_nil (f : Fixture) : f.extend [] = f := rfl
@[simp] theorem extend_cons (f : Fixture) (e : Entry) (es : List Entry) :
    f.extend (e :: es) = (f.insert e).extend es := rfl
theorem extend_append (f : Fixture) (a b : List Entry) :
    f.extend (a ++ b) = (f.extend a).extend b := List.foldl_append

theorem addSpecs_eq_extend (f : Fixture) (specs : List String) :
    f.addSpecs specs = f.extend (Spec.parseAll specs) := by
  induction specs generalizing f with
  | nil => rfl
  | cons s specs ih => simpa [addSpecs, addSpec, Spec.parseAll, extend_append] using ih (f.addSpec s)

def setLogger (f : Fixture) (l : Logger) : Fixture := { f with logger := l }

def setLogging (f : Fixture) (enabled : Bool) : Fixture :=
  { f with logger := { f.logger with enabled } }

def setAbsPrefix (f : Fixture) (start : String) : Fixture := { f with absPrefix := start }

def setAbsError (f : Fixture) (message : Option String) : Fixture := { f with absError := message }

/-- A sink is installed, enabled, before logging is turned on or off. An error for absolute paths can be
set in this way, but not removed. -/
def apply (f : Fixture) (o : Options) : Fixture :=
  let f := o.sink.elim f fun sink => f.setLogger (.into sink)
  let f := o.logging.elim f f.setLogging
  let f := o.absPrefix.elim f f.setAbsPrefix
  o.absError.elim f fun message => f.setAbsError (some message)

/-- The fixture of some specs, later ones replacing entries at the same path. -/
def build (specs : List String) (o : Options) : Fixture := (empty.apply o).addSpecs specs

def ofSpecs (specs : List String) : Fixture := build specs .unset

/-- Equal but for their loggers. -/
def same (f g : Fixture) : Bool :=
  f.entries = g.entries && f.absPrefix = g.absPrefix && f.absError = g.absError

def get? (f : Fixture) (path : String) : Option Entry := f.entries.get? path

def contains (f : Fixture) (path : String) : Bool := f.entries.contains path

theorem get?_insert (f : Fixture) {e : Entry} (h : accepts e = true) (path : String) :
    (f.insert e).get? path = if e.path = path then some e else f.get? path := by
  simp only [insert, h, if_true, get?, Catalog.get?_insert]

theorem insert_of_refused (f : Fixture) {e : Entry} (h : accepts e = false) : f.insert e = f := by
  simp [insert, h]

def size (f : Fixture) : Nat := f.entries.size

def paths (f : Fixture) : List String := f.entries.keys

def entryList (f : Fixture) : List Entry := f.entries.values

/-- All entries as a JSON array, in the order of their paths. -/
def toJson (f : Fixture) : String := (Json.Value.array (f.entryList.map Entry.toJson)).pretty

end Fixture
end FileFixture
