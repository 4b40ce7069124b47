import FileFixture.Json.Skip

/-!
Readers for values of a wanted kind. A value of another kind is refused as soon as it is known what it is:
a scalar when it has been read, a sequence or a map at its opening bracket.
-/
namespace FileFixture.Json.Reader

def fail (fault : Fault) : Reader α := fun _ => .error fault

def mismatch (m : Mismatch) : Reader α := fail (.mismatch m)

/-- Refuses the value ahead for not being what was wanted. -/
def refuse (wanted : String) : Reader α := do
  match skipSpace (← get) with
  | [] => fail .truncated
  | 'n' :: rest => set rest; word "ull".toList; mismatch (.wrongType .null wanted)
  | 't' :: rest => set rest; word "rue".toList; mismatch (.wrongType (.boolean true) wanted)
  | 'f' :: rest => set rest; word "alse".toList; mismatch (.wrongType (.boolean false) wanted)
  | '"' :: rest => set rest; let s ← openString; mismatch (.wrongType (.string s) wanted)
  | '[' :: _ => mismatch (.wrongType .sequence wanted)
  | '{' :: _ => mismatch (.wrongType .map wanted)
  | c :: rest =>
    if c = '-' ∨ c.isDigit then do
      set (c :: rest)
      let n ← Reader.number
      mismatch (.wrongType n.found wanted)
    else fail .malformed

/-- A string; `wanted` is what it is to be the text of. -/
def stringAs (wanted : String) : Reader String := do
  match skipSpace (← get) with
  | '"' :: rest => set rest; openString
  | _ => refuse wanted

def string : Reader String := stringAs "a string"

def bool : Reader Bool := do
  match skipSpace (← get) with
  | 't' :: rest => set rest; word "rue".toList; pure true
  | 'f' :: rest => set rest; word "alse".toList; pure false
  | _ => refuse "a boolean"

/-- An integer from 0 up to but not including `bound`; `wanted` names its type. -/
def natural (bound : Nat) (wanted : String) : Reader Nat := do
  match skipSpace (← get) with
  | [] => fail .truncated
  | c :: rest =>
    if c = '-' ∨ c.isDigit then do
      set (c :: rest)
      match ← Reader.number with
      | .integer n =>
        if 0 ≤ n ∧ n < bound then pure n.toNat else mismatch (.outOfRange n wanted)
      | .decimal d => mismatch (.wrongType (.decimal d) wanted)
    else refuse wanted

/-- A value, or `null` for nothing. -/
def optional (value : Reader α) : Reader (Option α) := do
  match skipSpace (← get) with
  | 'n' :: rest => set rest; word "ull".toList; pure none
  | _ => some <$> value

/-- Whether the sequence has one more element; if so the comma before it has been read. -/
def moreElements (first : Bool) : Reader Bool := do
  match skipSpace (← get) with
  | [] => fail .truncated
  | ']' :: rest => set (']' :: rest); pure false
  | c :: rest =>
    if first then set (c :: rest); pure true
    else if c = ',' then
      match skipSpace rest with
      | [] => fail .truncated
      | ']' :: _ => fail .malformed
      | rest => set rest; pure true
    else fail .malformed

def endSequence : Reader Unit := do
  match skipSpace (← get) with
  | [] => fail .truncated
  | ']' :: rest => set rest
  | _ => fail .malformed

/-- The elements that are left; `fuel` bounds their number. -/
def elements (element : Reader α) : (fuel : Nat) → (first : Bool) → Reader (List α)
  | 0, _ => fail .truncated
  | fuel + 1, first => do
    if ← moreElements first then
      let a ← element
      let rest ← elements element fuel false
      pure (a :: rest)
    else pure []

def list (element : Reader α) : Reader (List α) := do
  match skipSpace (← get) with
  | '[' :: rest =>
    set rest
    let items ← elements element (rest.length + 1) true
    endSequence
    pure items
  | _ => refuse "a sequence"

/-- The next key of an object, unless its closing bracket comes next and is read. -/
def nextKey (first : Bool) : Reader (Option String) := do
  match skipSpace (← get) with
  | [] => fail .truncated
  | '}' :: rest => set rest; pure none
  | c :: rest =>
    let ahead ← if first then pure (c :: rest)
      else if c = ',' then pure (skipSpace rest) else fail .malformed
    match ahead with
    | [] => fail .truncated
    | '"' :: rest => set rest; some <$> openString
    | _ => fail .malformed

def colon : Reader Unit := do
  match skipSpace (← get) with
  | [] => fail .truncated
  | ':' :: rest => set rest
  | _ => fail .malformed

/-- The members that are left. `accept` sees each key before its colon, and refuses it or says how the
value is read and what it changes. -/
def members (accept : σ → String → Except Fault (Reader σ)) :
    (fuel : Nat) → (first : Bool) → σ → Reader σ
  | 0, _, _ => fail .truncated
  | fuel + 1, first, s => do
    match ← nextKey first with
    | none => pure s
    | some key =>
      let value ← accept s key
      colon
      members accept fuel false (← value)

/-- A record, as an object of its fields in any order or as a sequence of them in theirs. -/
def record (wanted : String) (start : σ) (accept : σ → String → Except Fault (Reader σ))
    (finish : σ → Except Fault α) (inOrder : Reader α) : Reader α := do
  match skipSpace (← get) with
  | '{' :: rest =>
    set rest
    let s ← members accept (rest.length + 1) true start
    finish s
  | '[' :: rest =>
    set rest
    let a ← inOrder
    endSequence
    pure a
  | _ => refuse wanted

/-- A field on its first appearance. -/
def once (name : String) (present : Option β) (value : Reader σ) : Except Fault (Reader σ) :=
  if present.isSome then .error (.mismatch (.duplicateField name)) else .ok value

def required (name : String) : Option α → Except Fault α
  | some a => .ok a
  | none => .error (.mismatch (.missingField name))

/-- Element number `index` of a record written as a sequence. -/
def element (index : Nat) (wanted : String) (value : Reader α) : Reader α := do
  if ← moreElements (index == 0) then value else mismatch (.tooShort index wanted)

/-- As `element`, with a value for a sequence that ends before. -/
def elementD (index : Nat) (default : α) (value : Reader α) : Reader α := do
  if ← moreElements (index == 0) then value else pure default

/-- A whole text: a value, and nothing after it but white space. -/
def document (value : Reader α) (text : String) : Except Fault α := do
  let (a, rest) ← value text.toList
  if skipSpace rest = [] then .ok a else .error .malformed

end FileFixture.Json.Reader
