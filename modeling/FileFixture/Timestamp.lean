import FileFixture.Calendar

/-!
A moment in UTC, as seconds since 1970-01-01T00:00:00Z and nanoseconds. A leap second carries no number
of its own: it is the second before it, with a thousand million nanoseconds or more. Any second may have one
after it, though those of the clock stand at the end of a minute.

As RFC 3339 text a moment is `1970-01-01T00:00:00Z`. The fraction has the fewest of 0, 3, 6 and 9 digits that
lose nothing. A leap second is written as the second after the one that it follows, so at the end of a minute
it is second 60, and anywhere else it looks like the next second.
-/
namespace FileFixture

@[ext] structure Timestamp where
  seconds : Int
  nanos : Nat
  nanos_lt : nanos < 2000000000
  deriving DecidableEq

namespace Timestamp

def epoch : Timestamp := ⟨0, 0, by decide⟩

instance : Inhabited Timestamp := ⟨epoch⟩

/-- If it is a leap second, it stands at the end of a minute. -/
def LeapAtEnd (t : Timestamp) : Prop := 1000000000 ≤ t.nanos → t.seconds % 60 = 59

instance (t : Timestamp) : Decidable t.LeapAtEnd := inferInstanceAs (Decidable (_ → _))

/-- Refuses more nanoseconds than a leap second has, and a leap second not at the end of its minute. -/
def ofUnix? (seconds : Int) (nanos : Nat) : Option Timestamp :=
  if h : nanos < 2000000000 ∧ (1000000000 ≤ nanos → seconds % 60 = 59) then some ⟨seconds, nanos, h.1⟩ else none

theorem ofUnix?_self {t : Timestamp} (h : t.LeapAtEnd) : ofUnix? t.seconds t.nanos = some t := dif_pos ⟨t.nanos_lt, h⟩

def secondsPerDay : Int := 86400

def padded (width n : Nat) : List Char := (Nat.toDigits 10 n).leftpad width '0'

/-- Four digits, and for a year that they cannot name a sign and at least four digits. -/
def yearText (year : Int) : List Char :=
  if 0 ≤ year ∧ year ≤ 9999 then padded 4 year.toNat
  else (if year < 0 then '-' else '+') :: padded 4 year.natAbs

def dateText (d : Date) : List Char :=
  yearText d.year ++ '-' :: padded 2 d.month ++ '-' :: padded 2 d.day

def fractionText (nanos : Nat) : List Char :=
  if nanos = 0 then []
  else if nanos % 1000000 = 0 then '.' :: padded 3 (nanos / 1000000)
  else if nanos % 1000 = 0 then '.' :: padded 6 (nanos / 1000)
  else '.' :: padded 9 nanos

/-- The time of a day from the seconds passed in it. -/
def clockText (inDay nanos : Nat) : List Char :=
  let leap := nanos / 1000000000
  padded 2 (inDay / 3600) ++ ':' :: padded 2 (inDay / 60 % 60) ++ ':' :: padded 2 (inDay % 60 + leap) ++
    fractionText (nanos % 1000000000)

def date (t : Timestamp) : Date := Date.ofDay (t.seconds / secondsPerDay)

def text (t : Timestamp) : List Char :=
  dateText t.date ++ 'T' :: clockText (t.seconds % secondsPerDay).toNat t.nanos ++ ['Z']

def toText (t : Timestamp) : String := String.ofList t.text

end Timestamp
end FileFixture
