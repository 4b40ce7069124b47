import FileFixture.Fixture

/-!
Changes to an entry that is already there: its content, its error and its mode. Everything else about it
stays, and so does every other entry. Changes and looks at the entry are taken one after the other, and each
of them shows something.
-/
namespace FileFixture

inductive Edit where
  | setContent (bytes : List UInt8)
  | setError (message : String)
  | clearError
  | setMode (mode : UInt32)
  deriving DecidableEq

def Entry.edit (e : Entry) : Edit → Entry
  | .setContent bytes => { e with content := some bytes }
  | .setError message => { e with error := some message }
  | .clearError => { e with error := none }
  | .setMode mode => { e with mode }

@[simp] theorem Entry.edit_path (e : Entry) (d : Edit) : (e.edit d).path = e.path := by cases d <;> rfl
@[simp] theorem Entry.edit_name (e : Entry) (d : Edit) : (e.edit d).name = e.name := by cases d <;> rfl
@[simp] theorem Entry.edit_isDir (e : Entry) (d : Edit) : (e.edit d).isDir = e.isDir := by cases d <;> rfl

/-- Changes the entry at a path, if there is one. -/
def Fixture.edit (f : Fixture) (path : String) (d : Edit) : Fixture :=
  { f with entries := f.entries.modify path (·.edit d) }

/-- A look at an entry, or a change of it. -/
inductive Access where
  | entry
  | content
  | error
  | mode
  | edit (d : Edit)

/-- What an access shows: for a change the new value, or the error that was taken away. -/
inductive Shown where
  | entry (e : Entry)
  | content (bytes : Option (List UInt8))
  | error (message : Option String)
  | mode (mode : UInt32)
  deriving DecidableEq

/-- What an access shows of an entry, and the entry after it. -/
def Entry.access (e : Entry) : Access → Shown × Entry
  | .entry => (.entry e, e)
  | .content => (.content e.content, e)
  | .error => (.error e.error, e)
  | .mode => (.mode e.mode, e)
  | .edit d =>
    let shown := match d with
      | .setContent bytes => Shown.content (some bytes)
      | .setError message => .error (some message)
      | .clearError => .error e.error
      | .setMode mode => .mode mode
    (shown, e.edit d)

/-- One access after the other; nothing is shown where there is no entry. -/
def Fixture.configure (f : Fixture) (path : String) (accesses : List Access) :
    Option (List Shown) × Fixture :=
  match f.get? path with
  | none => (none, f)
  | some e =>
    let shown := (accesses.foldl
      (fun (vs, e) a => let (v, e) := e.access a; (v :: vs, e)) (([] : List Shown), e)).1.reverse
    let edits := accesses.filterMap fun | .edit d => some d | _ => none
    (some shown, edits.foldl (fun f d => f.edit path d) f)

end FileFixture
