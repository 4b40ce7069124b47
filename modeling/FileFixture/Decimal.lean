/-!
The shortest decimal that reads back as a given binary floating point number, and how it is written out.

A finite positive double is `m · 2^q`; the reals that round to it form an interval, which holds its ends exactly
when `m` is even. On the grid of decimals with one digit, then two, and so on, the two neighbours of the value
are tried, and the first grid that has one of them in the interval gives the answer: the nearer, and of two
equally near ones the even. All of it is exact arithmetic on natural numbers.

A decimal is written positionally while its leading digit stands near the point, with a power of ten otherwise.
-/
namespace FileFixture

/-- The number `digits · 10^exponent`, and a sign of its own, so that there are two zeros. -/
structure Decimal where
  negative : Bool
  digits : Nat
  exponent : Int
  deriving DecidableEq, Repr

namespace Decimal

/-- A positive fraction and the interval of reals that round to it, over one denominator. -/
structure Rounding where
  low : Nat
  value : Nat
  high : Nat
  den : Nat
  closed : Bool

/-- The interval around `m · 2^q`. Below a power of two the numbers lie twice as dense. -/
def Rounding.of (m : Nat) (q : Int) (denserBelow : Bool) : Rounding :=
  let up := Nat.pow 2 (q - 2).toNat
  { low := (4 * m - if denserBelow then 1 else 2) * up
    value := 4 * m * up
    high := (4 * m + 2) * up
    den := Nat.pow 2 (2 - q).toNat
    closed := m % 2 == 0 }

/-- Whether `d · 10^k` rounds to the value. -/
def Rounding.holds (r : Rounding) (d : Nat) (k : Int) : Bool :=
  let point := d * Nat.pow 10 k.toNat * r.den
  let scale := Nat.pow 10 (-k).toNat
  if r.closed then r.low * scale ≤ point && point ≤ r.high * scale
  else r.low * scale < point && point < r.high * scale

/-- The largest `e` with `10^e` not above the value. -/
def Rounding.magnitude (r : Rounding) : Int :=
  if r.den ≤ r.value then ((Nat.toDigits 10 (r.value / r.den)).length : Int) - 1
  else
    let places := (Nat.toDigits 10 (r.den / r.value)).length
    if r.den ≤ r.value * Nat.pow 10 (places - 1) then 1 - (places : Int) else -(places : Int)

/-- The better of the value's two neighbours on the grid of multiples of `10^k`, if one of them rounds
to the value. -/
def Rounding.onGrid? (r : Rounding) (k : Int) : Option Nat :=
  let num := r.value * Nat.pow 10 (-k).toNat
  let den := r.den * Nat.pow 10 k.toNat
  let below := num / den
  let past := num % den
  match r.holds below k, r.holds (below + 1) k with
  | true, true =>
    if 2 * past < den ∨ (2 * past = den ∧ below % 2 = 0) then some below else some (below + 1)
  | true, false => some below
  | false, true => some (below + 1)
  | false, false => none

/-- The first grid with an answer, from `places` decimal places beyond the leading digit on. Seventeen
digits always have one. -/
def Rounding.search (r : Rounding) : (tries places : Nat) → Nat × Int
  | 0, _ => (0, 0)
  | tries + 1, places =>
    let k := r.magnitude - places
    match r.onGrid? k with
    | some d => (d, k)
    | none => r.search tries (places + 1)

/-- Without zeros at the end of the digits. -/
def stripZeros : (fuel : Nat) → Nat × Int → Nat × Int
  | 0, d => d
  | fuel + 1, (d, k) => if d ≠ 0 ∧ d % 10 = 0 then stripZeros fuel (d / 10, k + 1) else (d, k)

/-- The decimal of a double given by its 64 bits; the infinities and what is not a number have none, and
are answered as zero. -/
def ofBits (bits : UInt64) : Decimal :=
  let negative := bits >>> 63 == 1
  let exponent := ((bits >>> 52) &&& 0x7FF).toNat
  let fraction := (bits &&& 0xFFFFFFFFFFFFF).toNat
  if exponent = 2047 ∨ (exponent = 0 ∧ fraction = 0) then ⟨negative, 0, 0⟩
  else
    let rounding :=
      if exponent = 0 then Rounding.of fraction (-1074) false
      else Rounding.of (Nat.pow 2 52 + fraction) ((exponent : Int) - 1075) (fraction = 0 ∧ 1 < exponent)
    let (digits, place) := stripZeros 20 (rounding.search 17 0)
    ⟨negative, digits, place⟩

def shortest (x : Float) : Decimal := ofBits x.toBits

/-- The places of the leading digit that are written positionally. -/
structure Layout where
  lowest : Int
  highest : Int

/-- The place of the leading digit, 0 being that of the ones. -/
def leadingPlace (d : Decimal) : Int :=
  d.exponent + (Nat.toDigits 10 d.digits).length - 1

def positional (ds : List Char) (place : Int) : List Char :=
  if place < 0 then '0' :: '.' :: List.replicate (-place - 1).toNat '0' ++ ds
  else
    let whole := (place + 1).toNat
    if ds.length ≤ whole then ds ++ List.replicate (whole - ds.length) '0' ++ ['.', '0']
    else ds.take whole ++ '.' :: ds.drop whole

/-- One digit before the point, and no point where no digit follows it; the power has a sign of its own and
no leading zero. -/
def withPower (ds : List Char) (place : Int) : List Char :=
  let mantissa := match ds with
    | c :: c' :: rest => c :: '.' :: c' :: rest
    | short => short
  mantissa ++ 'e' :: (if place < 0 then '-' else '+') :: Nat.toDigits 10 place.natAbs

def Layout.text (layout : Layout) (d : Decimal) : List Char :=
  let ds := Nat.toDigits 10 d.digits
  let place := d.leadingPlace
  let body :=
    if d.digits = 0 then positional ds 0
    else if layout.lowest ≤ place ∧ place ≤ layout.highest then positional ds place
    else withPower ds place
  if d.negative then '-' :: body else body

end Decimal
end FileFixture
