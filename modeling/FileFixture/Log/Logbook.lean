import FileFixture.Fault

/-!
What is told while a fixture is used. An operation leaves records of what it decided. A logger hands them to its sink,
unless it is disabled: to a memory, which keeps them in the order of their arrival, to the trace, or to a sink that the
caller has made. The trace hears of the reading of specs and of the building of fixtures as well.
-/
namespace FileFixture

/-- In a field of a fixed width, counted in characters. A longer text keeps all of its characters. -/
def Text.column (width : Nat) (text : String) : String :=
  String.ofList (text.toList.rightpad width ' ')

/-- What an operation decided about a path, and the text of the fault if it decided against. -/
structure Record where
  op : String
  msg : String
  path : String
  error : Option String
  deriving DecidableEq, Repr

namespace Record

def note (op msg path : String) : Record := ⟨op, msg, path, none⟩

def refusal (op msg path : String) (fault : Fault) : Record := ⟨op, msg, path, some fault.message⟩

/-- The record in columns, the path last because it has no width. -/
def line (r : Record) : String :=
  "|" ++ Text.column 10 r.op ++ "|" ++ Text.column 30 r.msg ++ "|" ++
    Text.column 20 (r.error.getD "<nil>") ++ "|" ++ r.path

end Record

inductive Sink where
  | memory
  | trace
  /-- A sink of the caller's own. -/
  | other (number : Nat)
  deriving DecidableEq, Repr

structure Logger where
  enabled : Bool
  sink : Sink
  deriving DecidableEq, Repr

namespace Logger

def disabled : Logger := ⟨false, .trace⟩

/-- A logger that is given a sink is enabled by it. -/
def into (sink : Sink) : Logger := ⟨true, sink⟩

/-- Those of the records that reach a sink. -/
def delivered (l : Logger) (sink : Sink) (records : List Record) : List Record :=
  if l.enabled ∧ l.sink = sink then records else []

@[simp] theorem delivered_disabled (sink : Sink) (records : List Record) :
    disabled.delivered sink records = [] := by simp [delivered, disabled]

@[simp] theorem delivered_into (sink : Sink) (records : List Record) :
    (into sink).delivered sink records = records := by simp [delivered, into]

def description (l : Logger) : String :=
  "Logger \x7b enabled: " ++ (if l.enabled then "true" else "false") ++ ", .. \x7d"

end Logger

inductive Level where
  | trace
  | debug
  deriving DecidableEq, Repr

/-- What the trace receives: a spec that was read, a fixture that was built, or a record. -/
inductive Event where
  | parsed (spec : String) (entries : Nat)
  | ready (specs entries : Nat)
  | record (r : Record)
  deriving DecidableEq, Repr

namespace Event

def level : Event → Level
  | .parsed .. => .trace
  | .ready .. => .debug
  | .record _ => .debug

def message : Event → String
  | .parsed .. => "parsed spec"
  | .ready .. => "stub ready"
  | .record r => r.msg

end Event

/-- A logger together with the memory that it may deliver to, which takes records directly as well. -/
structure Logbook where
  logger : Logger
  memory : List Record
  deriving DecidableEq

namespace Logbook

/-- Records by way of the logger. -/
def log (b : Logbook) (records : List Record) : Logbook :=
  { b with memory := b.memory ++ b.logger.delivered .memory records }

/-- A record without asking the logger. -/
def keep (b : Logbook) (r : Record) : Logbook := { b with memory := b.memory ++ [r] }

def setEnabled (b : Logbook) (enabled : Bool) : Logbook := { b with logger := { b.logger with enabled } }

def clear (b : Logbook) : Logbook := { b with memory := [] }

def recordsFor (b : Logbook) (op : String) : List Record := b.memory.filter (·.op == op)

end Logbook
end FileFixture
