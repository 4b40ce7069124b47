import FileFixture.Json.Literal

/-!
Numbers in JSON text: first their shape, then the value of the shape. An integer within 64 bits is exact.
Any other number is a double: the leading digits that fit 64 bits are scaled by one power of ten, so the
last bit may differ from that of the nearest double.
-/
namespace FileFixture.Json

/-- The shape of a number: a sign, digits, digits after the point if there is one, and the power of ten. -/
structure Numeral where
  negative : Bool
  whole : List Char
  fraction : List Char
  power : Option Int

inductive Number where
  | integer (n : Int)
  | decimal (d : Decimal)

def Number.found : Number → Found
  | .integer n => .integer n
  | .decimal d => .decimal d

namespace Numeral

/-- One digit or more; `atEnd` says what an end in their place is. -/
def digits (atEnd : Fault) : Reader (List Char)
  | [] => .error atEnd
  | c :: rest =>
    if c.isDigit then .ok (c :: rest.takeWhile Char.isDigit, rest.dropWhile Char.isDigit)
    else .error .malformed

/-- The digits before the point. None follows a leading zero. -/
def wholeDigits (atEnd : Fault) : Reader (List Char) := fun text => do
  let (ds, rest) ← digits atEnd text
  match ds with
  | '0' :: _ :: _ => .error .malformed
  | ds => .ok (ds, rest)

def fractionDigits (atEnd : Fault) : Reader (List Char)
  | '.' :: rest => digits atEnd rest
  | rest => .ok ([], rest)

def powerOfTen (atEnd : Fault) : Reader (Option Int)
  | [] => .ok (none, [])
  | c :: rest =>
    if c = 'e' ∨ c = 'E' then do
      let (sign, rest) : Int × List Char := match rest with
        | '-' :: rest => (-1, rest)
        | '+' :: rest => (1, rest)
        | rest => (1, rest)
      let (ds, rest) ← digits atEnd rest
      .ok (some (sign * Nat.ofDigitChars 10 ds 0), rest)
    else .ok (none, c :: rest)

def read (atEnd : Fault) : Reader Numeral := do
  let negative ← fun
    | '-' :: rest => .ok (true, rest)
    | rest => .ok (false, rest)
  let whole ← wholeDigits atEnd
  let fraction ← fractionDigits atEnd
  let power ← powerOfTen atEnd
  pure ⟨negative, whole, fraction, power⟩

/-- Digits appended to a number while it fits 64 bits, and those left over. -/
def fit : Nat → List Char → Nat × List Char
  | n, [] => (n, [])
  | n, c :: ds =>
    let m := n * 10 + (c.toNat - '0'.toNat)
    if m < Nat.pow 2 64 then fit m ds else (n, c :: ds)

def tenTo (e : Nat) : Float := Float.ofScientific 1 false e

/-- Scales by a power of ten in steps that a double can hold; `none` where the result would be infinite.
What has become zero stays so. -/
def scale : (steps : Nat) → Float → Int → Option Float
  | 0, x, _ => some x
  | steps + 1, x, e =>
    if 308 < e then (if x == 0 then some x else none)
    else if 0 ≤ e then
      let y := x * tenTo e.toNat
      if y.isInf then none else some y
    else if -308 ≤ e then some (x / tenTo e.natAbs)
    else if x == 0 then some x
    else scale steps (x / tenTo 308) (e + 308)

def double? (n : Numeral) (significand : Nat) (e : Int) : Option Float :=
  (scale (e.natAbs / 308 + 1) (Float.ofNat significand) e).map fun x => if n.negative then -x else x

/-- A whole number without a power is an integer if 64 bits hold it; minus zero is none. -/
def number (n : Numeral) : Except Fault Number :=
  let (significand, surplus) := fit 0 n.whole
  let (significand, unused) := fit significand n.fraction
  let e := (surplus.length : Int) - (n.fraction.length - unused.length) + n.power.getD 0
  let exact := n.fraction = [] ∧ n.power = none ∧ surplus = []
  if exact ∧ n.negative = false then .ok (.integer significand)
  else if exact ∧ 0 < significand ∧ significand ≤ Nat.pow 2 63 then .ok (.integer (-significand))
  else match n.double? significand e with
    | some x => .ok (.decimal (Decimal.shortest x))
    | none => .error .malformed

end Numeral

def Reader.number : Reader Number := fun text => do
  let (n, rest) ← Numeral.read .truncated text
  let value ← n.number
  .ok (value, rest)

end FileFixture.Json
