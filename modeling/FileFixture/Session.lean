import FileFixture.Fixture.Edit
import FileFixture.Fixture.Walk
import FileFixture.Settings

/-!
A session with a fixture: how the fixture comes into being, which only a text in JSON can prevent, the steps that
a test takes with it, and what each step answers, adds to the memory of records and sends to the trace. Copies
of the fixture may be put aside; they share the memory.
-/
namespace FileFixture

/-- A question to a fixture. -/
inductive Query where
  | stat (path : String)
  | content (path : String)
  | list (path : String)
  | walk (path : String)
  | walkUntil (path : String) (rule : StopRule)
  | abs (path : String)
  | write (path : String) (bytes : List UInt8) (mode : UInt32)

/-- The reply to a question, or to anything else that a test asks of a fixture. -/
inductive Reply where
  | done
  | flag (b : Bool)
  | count (n : Nat)
  | text (s : String)
  | bytes (bytes : List UInt8)
  | entry (e : Option Entry)
  | entries (es : List Entry)
  | paths (paths : List String)
  | size (entries : Nat) (isEmpty : Bool)
  | absSettings (start : String) (error : Option String)
  | logger (enabled : Bool) (description : String)
  | shown (values : Option (List Shown))
  | records (rs : List Record)
  | refused (fault : Fault)
  | tour (visits : List Visit) (result : Except Fault Unit)

def Answer.reply (encode : α → Reply) (a : Answer α) : Reply × List Record :=
  (match a.result with
    | .ok x => encode x
    | .error fault => .refused fault,
   a.records)

/-- What a query answers, and the records that it leaves. -/
def Fixture.ask (f : Fixture) : Query → Reply × List Record
  | .stat path => (f.stat path).reply fun e => .entry (some e)
  | .content path => (f.content path).reply .bytes
  | .list path => (f.list path).reply .entries
  | .walk path =>
    let t := f.walk path (fun (_ : Unit) _ => ((), none)) ()
    (.tour t.visits t.answer.result, t.answer.records)
  | .walkUntil path rule =>
    let t := f.walkUntil path rule.visitor ()
    (.tour t.visits t.answer.result, t.answer.records)
  | .abs path => (f.abs path).reply .text
  | .write path bytes mode => (f.write path bytes mode).reply fun _ => .done

/-- What the building of a fixture starts from. -/
inductive Origin where
  | empty (logger : Logger)
  | specs (specs : List String) (options : Options)
  | settings (settings : Settings)
  | json (text : String)

namespace Event

def ofSpecs (specs : List String) : List Event :=
  specs.map fun spec => .parsed spec (Spec.parse spec).length

/-- The specs of a fixture that is built, and the fixture itself. -/
def ofBuild (specs : List String) (f : Fixture) : List Event :=
  ofSpecs specs ++ [.ready specs.length f.size]

end Event

/-- The fixture and the events of its building. -/
def Origin.build : Origin → Except Fault (Fixture × List Event)
  | .empty logger => .ok (Fixture.empty.setLogger logger, [])
  | .specs texts options =>
    let f := Fixture.build texts options
    .ok (f, Event.ofBuild texts f)
  | .settings s =>
    let f := Fixture.ofSettings s
    .ok (f, Event.ofBuild s.specs f)
  | .json text => do
    let s ← Settings.ofJson text
    let f := Fixture.ofSettings s
    .ok (f, Event.ofBuild s.specs f)

inductive Step where
  | query (q : Query)
  | addSpecs (specs : List String)
  | apply (options : Options)
  | configure (path : String) (accesses : List Access)
  | insert (e : Entry)
  | extend (es : List Entry)
  | get (path : String)
  | contains (path : String)
  | size
  | paths
  | entries
  | toJson
  | absSettings
  | setAbsPrefix (start : String)
  | setAbsError (message : Option String)
  | setLogger (l : Logger)
  | setLogging (enabled : Bool)
  | logger
  | records
  | recordsFor (op : String)
  | clearRecords
  | save
  | swap (index : Nat)
  | equals (index : Nat)
  | equalsSpecs (specs : List String)

structure Session where
  fixture : Fixture
  saved : List Fixture
  memory : List Record

/-- The session after a step, its answer, and the events of the step. -/
structure Effect where
  session : Session
  reply : Reply
  events : List Event

/-- What a step adds to the memory of records. -/
def Effect.added (e : Effect) (before : Session) : List Record := e.session.memory.drop before.memory.length

namespace Session

def start (f : Fixture) : Session := ⟨f, [], []⟩

def change (s : Session) (f : Fixture) (reply : Reply) : Effect := ⟨{ s with fixture := f }, reply, []⟩

def answer (s : Session) (reply : Reply) : Effect := ⟨s, reply, []⟩

def step (s : Session) : Step → Effect
  | .query q =>
    let (reply, records) := s.fixture.ask q
    let logger := s.fixture.logger
    { session := { s with memory := s.memory ++ logger.delivered .memory records }
      reply
      events := (logger.delivered .trace records).map .record }
  | .addSpecs specs =>
    let f := s.fixture.addSpecs specs
    ⟨{ s with fixture := f }, .count f.size, Event.ofSpecs specs⟩
  | .apply options => s.change (s.fixture.apply options) .done
  | .configure path accesses =>
    let (shown, f) := s.fixture.configure path accesses
    s.change f (.shown shown)
  | .insert e => s.change (s.fixture.insert e) (.flag (Fixture.accepts e))
  | .extend es =>
    let f := s.fixture.extend es
    s.change f (.count f.size)
  | .get path => s.answer (.entry (s.fixture.get? path))
  | .contains path => s.answer (.flag (s.fixture.contains path))
  | .size => s.answer (.size s.fixture.size (s.fixture.size == 0))
  | .paths => s.answer (.paths s.fixture.paths)
  | .entries => s.answer (.entries s.fixture.entryList)
  | .toJson => s.answer (.text s.fixture.toJson)
  | .absSettings => s.answer (.absSettings s.fixture.absPrefix s.fixture.absError)
  | .setAbsPrefix start => s.change (s.fixture.setAbsPrefix start) .done
  | .setAbsError message => s.change (s.fixture.setAbsError message) .done
  | .setLogger l => s.change (s.fixture.setLogger l) .done
  | .setLogging enabled => s.change (s.fixture.setLogging enabled) .done
  | .logger => s.answer (.logger s.fixture.logger.enabled s.fixture.logger.description)
  | .records => s.answer (.records s.memory)
  | .recordsFor op => s.answer (.records (s.memory.filter (·.op == op)))
  | .clearRecords => ⟨{ s with memory := [] }, .done, []⟩
  | .save => ⟨{ s with saved := s.saved ++ [s.fixture] }, .count s.saved.length, []⟩
  | .swap index =>
    match s.saved[index]? with
    | some f => ⟨{ s with fixture := f, saved := s.saved.set index s.fixture }, .done, []⟩
    | none => s.answer .done
  | .equals index => s.answer (.flag (s.saved[index]?.any s.fixture.same))
  | .equalsSpecs specs =>
    let f := Fixture.ofSpecs specs
    ⟨s, .flag (s.fixture.same f), Event.ofBuild specs f⟩

/-- Steps one after the other. -/
def run (s : Session) : List Step → List Effect
  | [] => []
  | step :: rest => let e := s.step step; e :: run e.session rest

end Session
end FileFixture
