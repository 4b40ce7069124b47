import FileFixture.Json.Fault

/-!
The scalar tokens of JSON text: white space, the three words, and strings. Every reader here takes what it
reads off the head of a text and leaves the rest, so that the first problem from the left is the one met.
-/
namespace FileFixture.Json

/-- Takes a value off the head of a text. -/
abbrev Reader := StateT (List Char) (Except Fault)

namespace Reader

def isSpace (c : Char) : Bool := c == ' ' || c == '\n' || c == '\t' || c == '\r'

def skipSpace (text : List Char) : List Char := text.dropWhile isSpace

/-- The rest of a word whose first letter announced it. -/
def word : List Char → Reader Unit
  | [], text => .ok ((), text)
  | _ :: _, [] => .error .truncated
  | a :: letters, c :: text => if a = c then word letters text else .error .malformed

def hexDigit? (c : Char) : Option Nat :=
  if '0' ≤ c ∧ c ≤ '9' then some (c.toNat - '0'.toNat)
  else if 'a' ≤ c ∧ c ≤ 'f' then some (c.toNat - 'a'.toNat + 10)
  else if 'A' ≤ c ∧ c ≤ 'F' then some (c.toNat - 'A'.toNat + 10)
  else none

/-- Bytes of a text in UTF-8. -/
def byteLength (text : List Char) : Nat := (String.ofList text).utf8ByteSize

/-- Four hexadecimal digits. Fewer than four bytes are an end, four others are wrong. -/
def hexUnit : Reader Nat
  | a :: b :: c :: d :: rest =>
    match hexDigit? a, hexDigit? b, hexDigit? c, hexDigit? d with
    | some a, some b, some c, some d => .ok (((a * 16 + b) * 16 + c) * 16 + d, rest)
    | _, _, _, _ => .error .malformed
  | short => .error (if byteLength short < 4 then .truncated else .malformed)

def isHighSurrogate (n : Nat) : Bool := 0xD800 ≤ n && n ≤ 0xDBFF

def isLowSurrogate (n : Nat) : Bool := 0xDC00 ≤ n && n ≤ 0xDFFF

/-- The character of a `\u` escape, or of a pair of them for one beyond U+FFFF. -/
def unicodeEscape : Reader Char := fun text => do
  let (high, rest) ← hexUnit text
  if isLowSurrogate high then .error .malformed
  else if isHighSurrogate high then
    match rest with
    | [] | ['\\'] => .error .truncated
    | '\\' :: 'u' :: rest => do
      let (low, rest) ← hexUnit rest
      if isLowSurrogate low then
        .ok (Char.ofNat (0x10000 + (high - 0xD800) * 0x400 + (low - 0xDC00)), rest)
      else .error .malformed
    | _ => .error .malformed
  else .ok (Char.ofNat high, rest)

/-- What a backslash and this letter stand for. -/
def shortEscape? (c : Char) : Option Char :=
  if c = '"' then some '"'
  else if c = '\\' then some '\\'
  else if c = '/' then some '/'
  else if c = 'b' then some '\x08'
  else if c = 'f' then some '\x0c'
  else if c = 'n' then some '\n'
  else if c = 'r' then some '\r'
  else if c = 't' then some '\t'
  else none

/-- The character of an escape whose backslash has been read. -/
def escape : Reader Char
  | [] => .error .truncated
  | c :: rest =>
    if c = 'u' then unicodeEscape rest
    else match shortEscape? c with
      | some d => .ok (d, rest)
      | none => .error .malformed

/-- The characters up to the closing quotation mark; `fuel` bounds their number. -/
def stringBody : (fuel : Nat) → Reader (List Char)
  | 0, _ => .error .truncated
  | _ + 1, [] => .error .truncated
  | fuel + 1, c :: rest =>
    if c = '"' then .ok ([], rest)
    else if c = '\\' then do
      let (d, rest) ← escape rest
      let (body, rest) ← stringBody fuel rest
      .ok (d :: body, rest)
    else if c.toNat < 0x20 then .error .malformed
    else do
      let (body, rest) ← stringBody fuel rest
      .ok (c :: body, rest)

/-- A string whose opening quotation mark has been read. -/
def openString : Reader String := fun text => do
  let (body, rest) ← stringBody (text.length + 1) text
  .ok (String.ofList body, rest)

end Reader
end FileFixture.Json
