import FileFixture.Json.Number

/-!
Passing over a value that nobody asked for. It must be JSON, but its numbers may be out of range, its
strings may hold lone surrogates, and it may nest to any depth: the open brackets are kept on a list.
-/
namespace FileFixture.Json

/-- A bracket that is still open around the place reached. -/
inductive Frame where
  | array
  | object
  deriving DecidableEq

namespace Reader

def skipEscape : Reader Unit
  | [] => .error .truncated
  | c :: rest =>
    if c = 'u' then do
      let (_, rest) ← hexUnit rest
      .ok ((), rest)
    else if (shortEscape? c).isSome then .ok ((), rest)
    else .error .malformed

def skipStringBody : (fuel : Nat) → Reader Unit
  | 0, _ => .error .truncated
  | _ + 1, [] => .error .truncated
  | fuel + 1, c :: rest =>
    if c = '"' then .ok ((), rest)
    else if c = '\\' then do
      let ((), rest) ← skipEscape rest
      skipStringBody fuel rest
    else if c.toNat < 0x20 then .error .malformed
    else skipStringBody fuel rest

def skipOpenString : Reader Unit := fun text => skipStringBody (text.length + 1) text

/-- A key with its quotation marks, and the colon after it. -/
def skipKey : Reader Unit := fun text =>
  match skipSpace text with
  | [] => .error .truncated
  | '"' :: rest => do
    let ((), rest) ← skipOpenString rest
    match skipSpace rest with
    | [] => .error .truncated
    | ':' :: rest => .ok ((), rest)
    | _ => .error .malformed
  | _ => .error .malformed

/-- A value without brackets. Its first character is there and is no opening bracket. -/
def skipScalar : Reader Unit := fun text =>
  match text with
  | [] => .error .truncated
  | 'n' :: rest => word "ull".toList rest
  | 't' :: rest => word "rue".toList rest
  | 'f' :: rest => word "alse".toList rest
  | '"' :: rest => skipOpenString rest
  | c :: rest =>
    if c = '-' ∨ c.isDigit then do
      let (_, rest) ← Numeral.read .malformed (c :: rest)
      .ok ((), rest)
    else .error .malformed

/-- What comes next inside the open brackets: a value, or what follows a value. -/
inductive Awaited where
  | value
  | delimiter

/-- Reads on until all brackets are closed. Each step takes a character at least, but for the last. -/
def skipWithin : (fuel : Nat) → Awaited → List Frame → Reader Unit
  | 0, _, _, _ => .error .truncated
  | _ + 1, .delimiter, [], text => .ok ((), text)
  | fuel + 1, .delimiter, frame :: frames, text =>
    match skipSpace text, frame with
    | [], _ => .error .truncated
    | ',' :: rest, .array => skipWithin fuel .value (.array :: frames) rest
    | ',' :: rest, .object => do
      let ((), rest) ← skipKey rest
      skipWithin fuel .value (.object :: frames) rest
    | ']' :: rest, .array => skipWithin fuel .delimiter frames rest
    | '}' :: rest, .object => skipWithin fuel .delimiter frames rest
    | _, _ => .error .malformed
  | fuel + 1, .value, frames, text =>
    match skipSpace text with
    | '[' :: rest =>
      match skipSpace rest with
      | [] => .error .truncated
      | ']' :: rest => skipWithin fuel .delimiter frames rest
      | rest => skipWithin fuel .value (.array :: frames) rest
    | '{' :: rest =>
      match skipSpace rest with
      | [] => .error .truncated
      | '}' :: rest => skipWithin fuel .delimiter frames rest
      | rest => do
        let ((), rest) ← skipKey rest
        skipWithin fuel .value (.object :: frames) rest
    | rest => do
      let ((), rest) ← skipScalar rest
      skipWithin fuel .delimiter frames rest

/-- Any value at all. -/
def skipValue : Reader Unit := fun text => skipWithin (2 * text.length + 2) .value [] text

end Reader
end FileFixture.Json
