import FileFixture.Text.Blank
import FileFixture.Timestamp

/-!
Reading a moment from RFC 3339 text, with some liberties: fields may be short, white space may stand before
fields, the year may carry a sign, `T` may be a space and the zone may be `UTC`. The first problem from left
to right is the one reported; a field out of range counts as met when the field ends.
-/
namespace FileFixture.Timestamp

inductive ReadFault where
  | premature | invalid | outOfRange | trailing | impossible
  deriving DecidableEq, Repr

def ReadFault.message : ReadFault → String
  | .premature => "premature end of input"
  | .invalid => "input contains invalid characters"
  | .outOfRange => "input is out of range"
  | .trailing => "trailing input"
  | .impossible => "no possible date and time matching input"

/-- Reads a part from the head of a text and leaves the rest. -/
abbrev Part := StateT (List Char) (Except ReadFault)

def skipBlank : Part Unit := modify Text.trimStart

/-- A number of one to `most` digits. -/
def number (most : Nat) : Part Nat := fun text =>
  match text, (text.take most).takeWhile Char.isDigit with
  | [], _ => .error .premature
  | _ :: _, [] => .error .invalid
  | text, digits => .ok (Nat.ofDigitChars 10 digits 0, text.drop digits.length)

/-- A number of any length. -/
def longNumber : Part Nat := fun text => number text.length text

def literal (c : Char) : Part Unit
  | [] => .error .premature
  | d :: rest => if d = c then .ok ((), rest) else .error .invalid

/-- A number of one or two digits, white space before it, within its bounds. -/
def field (low high : Nat) : Part Nat := do
  skipBlank
  let n ← number 2
  if low ≤ n ∧ n ≤ high then pure n else throw .outOfRange

/-- Four digits at most, or a sign and any number of digits; nothing beyond 32 bits. -/
def year : Part Int := do
  skipBlank
  let y ← match (← get) with
    | '-' :: rest => do set rest; pure (-(← longNumber : Int))
    | '+' :: rest => do set rest; pure (← longNumber : Int)
    | _ => do pure (← number 4 : Int)
  if -2147483648 ≤ y ∧ y ≤ 2147483647 then pure y else throw .outOfRange

def readDate : Part Date := do
  let y ← year
  skipBlank
  literal '-'
  let m ← field 1 12
  skipBlank
  literal '-'
  let d ← field 1 31
  pure ⟨y, m, d⟩

def separator : Part Unit
  | [] => .error .premature
  | c :: rest => if c = 'T' ∨ c = 't' ∨ c = ' ' then .ok ((), rest) else .error .invalid

/-- Nanoseconds from the digits after a point; a tenth digit and those after it are dropped. -/
def fraction : Part Nat := do
  match (← get) with
  | '.' :: rest =>
    set rest
    let n ← number 9
    let places := rest.length - (← get).length
    modify (List.dropWhile Char.isDigit)
    pure (n * Nat.pow 10 (9 - places))
  | _ => pure 0

/-- The time of a day. Its seconds go up to 60. -/
structure Clock where
  hour : Nat
  minute : Nat
  second : Nat
  nanos : Nat

def clock : Part Clock := do
  let h ← field 0 23
  skipBlank
  literal ':'
  let m ← field 0 59
  skipBlank
  literal ':'
  let s ← field 0 60
  let n ← fraction
  skipBlank
  pure ⟨h, m, s, n⟩

/-- Exactly two digits. A character beyond ASCII is long enough to be wrong rather than missing. -/
def twoDigits : Part Nat
  | [] => .error .premature
  | [c] => if c.utf8Size = 1 then .error .premature else .error .invalid
  | c :: d :: rest =>
    if c.isDigit ∧ d.isDigit then .ok (Nat.ofDigitChars 10 [c, d] 0, rest) else .error .invalid

/-- Seconds east of UTC, as hours and minutes after a sign. -/
def signedOffset (sign : Int) : Part Int := do
  let h ← twoDigits
  modify (List.dropWhile fun c => c == ':' || Text.isBlank c)
  let m ← twoDigits
  if m < 60 then pure (sign * (h * 3600 + m * 60)) else throw .outOfRange

/-- The zone: `Z`, `UTC` in any case, or an offset, whose minus may be the typographic one. -/
def offset : Part Int := do
  match (← get) with
  | [] => throw .premature
  | c :: rest =>
    if c = 'Z' ∨ c = 'z' then do set rest; pure 0
    else if c = '+' then do set rest; signedOffset 1
    else if c = '-' ∨ c = '\u2212' then do set rest; signedOffset (-1)
    else if (c :: rest.take 2).map Char.toLower = ['u', 't', 'c'] then do set (rest.drop 2); pure 0
    else throw .invalid

/-- The years that a moment may lie in. -/
def yearInRange (y : Int) : Bool := -262143 ≤ y && y ≤ 262142

/-- The moment of a date and a time of day at an offset. Second 60 is a leap second after second 59. -/
def ofParts (d : Date) (c : Clock) (offset : Int) : Except ReadFault Timestamp :=
  let second := if c.second = 60 then 59 else c.second
  let nanos := if c.second = 60 then c.nanos + 1000000000 else c.nanos
  let seconds := d.toDay * 86400 + (c.hour * 3600 + c.minute * 60 + second : Nat) - offset
  if ¬(yearInRange d.year ∧ d.Valid ∧ -86400 < offset ∧ offset < 86400) then .error .outOfRange
  else if ¬yearInRange (Date.ofDay (seconds / 86400)).year then .error .impossible
  else match ofUnix? seconds nanos with
    | some t => .ok t
    | none => .error .impossible

def read (text : List Char) : Except ReadFault Timestamp := do
  let (d, rest) ← readDate text
  let ((), rest) ← separator rest
  let (c, rest) ← clock rest
  let (east, rest) ← offset rest
  if Text.trimStart rest = [] then ofParts d c east else .error .trailing

def ofText (text : String) : Except ReadFault Timestamp := read text.toList

end FileFixture.Timestamp
