/-!
JSON values and the two ways of writing them: compact, without a blank, and pretty, with an element or a
member on each line and two spaces for each level. Of a string only the quotation mark, the backslash and
the controls below U+0020 are escaped.
-/
namespace FileFixture.Json

inductive Value where
  | null
  | bool (b : Bool)
  | number (n : Nat)
  | string (s : String)
  | array (items : List Value)
  | object (members : List (String × Value))

def boolText (b : Bool) : List Char := if b then "true".toList else "false".toList

def numberText (n : Nat) : List Char := Nat.toDigits 10 n

def escapedChar (c : Char) : List Char :=
  if c = '"' then ['\\', '"']
  else if c = '\\' then ['\\', '\\']
  else if c = '\x08' then ['\\', 'b']
  else if c = '\t' then ['\\', 't']
  else if c = '\n' then ['\\', 'n']
  else if c = '\x0c' then ['\\', 'f']
  else if c = '\r' then ['\\', 'r']
  else if c.toNat < 0x20 then '\\' :: 'u' :: (Nat.toDigits 16 c.toNat).leftpad 4 '0'
  else [c]

def stringText (s : String) : List Char := '"' :: s.toList.flatMap escapedChar ++ ['"']

/-- The parts with a separator between them. -/
def separated (separator : List Char) (parts : List (List Char)) : List Char :=
  separator.intercalate parts

namespace Value

mutual
def compactText : Value → List Char
  | .null => "null".toList
  | .bool b => boolText b
  | .number n => numberText n
  | .string s => stringText s
  | .array items => '[' :: separated [','] (compactItems items) ++ [']']
  | .object members => '\x7b' :: separated [','] (compactMembers members) ++ ['\x7d']

def compactItems : List Value → List (List Char)
  | [] => []
  | v :: vs => v.compactText :: compactItems vs

def compactMembers : List (String × Value) → List (List Char)
  | [] => []
  | (key, v) :: ms => (stringText key ++ ':' :: v.compactText) :: compactMembers ms
end

def newline (level : Nat) : List Char := '\n' :: List.replicate (2 * level) ' '

/-- Parts on lines of their own between brackets; nothing between the brackets if there are none. -/
def block (level : Nat) (opening closing : Char) (parts : List (List Char)) : List Char :=
  match parts with
  | [] => [opening, closing]
  | parts =>
    opening :: newline (level + 1) ++ separated (',' :: newline (level + 1)) parts ++
      newline level ++ [closing]

mutual
def prettyText (level : Nat) : Value → List Char
  | .null => "null".toList
  | .bool b => boolText b
  | .number n => numberText n
  | .string s => stringText s
  | .array items => block level '[' ']' (prettyItems (level + 1) items)
  | .object members => block level '\x7b' '\x7d' (prettyMembers (level + 1) members)

def prettyItems (level : Nat) : List Value → List (List Char)
  | [] => []
  | v :: vs => v.prettyText level :: prettyItems level vs

def prettyMembers (level : Nat) : List (String × Value) → List (List Char)
  | [] => []
  | (key, v) :: ms => (stringText key ++ ':' :: ' ' :: v.prettyText level) :: prettyMembers level ms
end

def compact (v : Value) : String := String.ofList v.compactText

def pretty (v : Value) : String := String.ofList (v.prettyText 0)

/-- Writes `null` for what is not there. -/
def ofOption (encode : α → Value) : Option α → Value
  | none => .null
  | some a => encode a

end Value
end FileFixture.Json
