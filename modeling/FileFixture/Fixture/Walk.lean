import FileFixture.Fixture.Query

/-!
Walks over a directory and everything below it, in the order of the paths. A visitor has a state of its own
and may ask to stop. `walk` does not listen to that, `walkUntil` does; both tell which visits they made.
-/
namespace FileFixture

/-- One call of a visitor: a path, and what a look-up of it answers. -/
structure Visit where
  path : String
  outcome : Except Fault Entry

/-- The visitor's next state, and the fault it stops the walk with, if it does. -/
abbrev Visitor (σ : Type) := σ → Visit → σ × Option Fault

/-- A walk that is over: the visitor's state, the visits made, and the answer. -/
structure Tour (σ : Type) where
  state : σ
  visits : List Visit
  answer : Answer Unit

def Visit.records (v : Visit) : List Record :=
  match v.outcome with
  | .error fault =>
    [.refusal "walk" Fixture.presetError v.path fault, .note "walk" "calling visitor" v.path]
  | .ok _ => [.note "walk" "calling visitor" v.path]

namespace Tour

/-- Makes all visits. -/
def full (visitor : Visitor σ) (s : σ) (visits : List Visit) : Tour σ :=
  { state := visits.foldl (fun s v => (visitor s v).1) s
    visits
    answer := ⟨.ok (), visits.flatMap Visit.records⟩ }

/-- Makes visits until the visitor stops. -/
def cut (visitor : Visitor σ) : σ → List Visit → Tour σ
  | s, [] => ⟨s, [], .ok ()⟩
  | s, v :: rest =>
    match visitor s v with
    | (s, some fault) =>
      let stopped := Record.refusal "walk" "visitor stopped walk" v.path fault
      ⟨s, [v], ⟨.error fault, v.records ++ [stopped]⟩⟩
    | (s, none) =>
      let t := cut visitor s rest
      ⟨t.state, v :: t.visits, ⟨t.answer.result, v.records ++ t.answer.records⟩⟩

end Tour

namespace Fixture

/-- The bindings of a path and of all paths below it. Names that begin with the path follow it in one run,
in which siblings such as `/a-b` may stand between `/a` and `/a/b`. -/
def subtree (f : Fixture) (root : String) : List (String × Entry) :=
  ((f.entries.bindingsFrom root).takeWhile fun b => root.toList.isPrefixOf b.1.toList).filter
    fun b => Path.isWithin b.1 root

def visits (f : Fixture) (root : String) : List Visit :=
  (f.subtree root).map fun (key, e) => ⟨key, e.outcome⟩

/-- Visits by `go`, unless the path is no directory that can be entered. -/
def tour (f : Fixture) (root : String) (s : σ) (go : List Visit → Tour σ) : Tour σ :=
  let entered := f.requireDir "walk" root
  match entered.result with
  | .error fault => ⟨s, [], ⟨.error fault, entered.records⟩⟩
  | .ok _ => go (f.visits root)

def walk (f : Fixture) (root : String) (visitor : Visitor σ) (s : σ) : Tour σ :=
  f.tour root s (Tour.full visitor s)

def walkUntil (f : Fixture) (root : String) (visitor : Visitor σ) (s : σ) : Tour σ :=
  f.tour root s (Tour.cut visitor s)

end Fixture

/-- A visitor that stops at a path, or at the first visit that is an error. -/
structure StopRule where
  stopAt : Option String
  stopOnError : Bool
  fault : Fault

namespace StopRule

def stops (r : StopRule) (v : Visit) : Bool :=
  r.stopAt == some v.path || (r.stopOnError && !v.outcome.isOk)

def visitor (r : StopRule) : Visitor Unit := fun s v => (s, if r.stops v then some r.fault else none)

end StopRule
end FileFixture
