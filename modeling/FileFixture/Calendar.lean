/-!
The Gregorian calendar, extended over all years, and the numbering of its days from 1970-01-01. Both
directions count in eras of 400 years whose years begin on 1 March, so that a leap day ends its year. Main
statements: every number of days is that of a valid date, and that date has this number.
-/
namespace FileFixture

structure Date where
  year : Int
  month : Nat
  day : Nat
  deriving DecidableEq, Repr

namespace Date

def isLeap (year : Int) : Bool := year % 4 == 0 && (year % 100 != 0 || year % 400 == 0)

def daysIn (year : Int) (month : Nat) : Nat :=
  if month = 2 then (if isLeap year then 29 else 28)
  else if month = 4 ∨ month = 6 ∨ month = 9 ∨ month = 11 then 30
  else 31

/-- A month of the year and a day of that month. -/
def Valid (d : Date) : Prop :=
  1 ≤ d.month ∧ d.month ≤ 12 ∧ 1 ≤ d.day ∧ d.day ≤ daysIn d.year d.month

instance (d : Date) : Decidable d.Valid := by unfold Valid; infer_instance

/-- Days from 1 March of a year to the first of its month number `m`, March being number 0. -/
def monthStart (m : Int) : Int := (153 * m + 2) / 5

/-- Days from 1 March of an era's year 0 to 1 March of its year number `y`. -/
def yearStart (y : Int) : Int := 365 * y + y / 4 - y / 100

/-- Days since 1970-01-01. -/
def toDay (d : Date) : Int :=
  let y := if d.month ≤ 2 then d.year - 1 else d.year
  let m := ((d.month : Int) + 9) % 12
  y / 400 * 146097 + yearStart (y % 400) + monthStart m + (d.day - 1) - 719468

/-- Where a day of an era lies: the era's year and the days passed since that year's 1 March. An era is four
centuries, a century twenty-five spans of four years, and the last one of each may be a day longer. -/
def yearOfEra (inEra : Int) : Int × Int :=
  let century := min (inEra / 36524) 3
  let inCentury := inEra - 36524 * century
  let inSpan := inCentury % 1461
  let single := min (inSpan / 365) 3
  (100 * century + 4 * (inCentury / 1461) + single, inSpan - 365 * single)

/-- The date that a number of days since 1970-01-01 leads to. -/
def ofDay (n : Int) : Date :=
  let era := (n + 719468) / 146097
  let (y, inYear) := yearOfEra ((n + 719468) % 146097)
  let m := (5 * inYear + 2) / 153
  let month := if m < 10 then m + 3 else m - 9
  { year := era * 400 + y + (if month ≤ 2 then 1 else 0)
    month := month.toNat
    day := (inYear - monthStart m + 1).toNat }

theorem yearStart_yearOfEra {n : Int} (h₀ : 0 ≤ n) (h₁ : n < 146097) :
    yearStart (yearOfEra n).1 + (yearOfEra n).2 = n := by
  simp only [yearOfEra, yearStart]
  generalize hc : min (n / 36524) 3 = c
  generalize hq : (n - 36524 * c) / 1461 = q
  generalize hy : min ((n - 36524 * c) % 1461 / 365) 3 = y
  have hquarter : (100 * c + 4 * q + y) / 4 = 25 * c + q := by omega
  have hq₁ : q ≤ 24 := by omega
  have hcentury : (100 * c + 4 * q + y) / 100 = c := by omega
  omega

theorem yearOfEra_bounds {n : Int} (h₀ : 0 ≤ n) (h₁ : n < 146097) :
    0 ≤ (yearOfEra n).1 ∧ (yearOfEra n).1 < 400 ∧ 0 ≤ (yearOfEra n).2 ∧ (yearOfEra n).2 ≤ 365 := by
  simp only [yearOfEra]
  omega

theorem toDay_ofDay (n : Int) : (ofDay n).toDay = n := by
  have h₀ : 0 ≤ (n + 719468) % 146097 := by omega
  have h₁ : (n + 719468) % 146097 < 146097 := by omega
  have hs := yearStart_yearOfEra h₀ h₁
  have hb := yearOfEra_bounds h₀ h₁
  have he : (n + 719468) / 146097 * 146097 + (n + 719468) % 146097 = n + 719468 := by omega
  unfold ofDay toDay
  generalize yearOfEra _ = p at hs hb ⊢
  generalize (n + 719468) / 146097 = era at he ⊢
  generalize (n + 719468) % 146097 = inEra at he hs ⊢
  obtain ⟨y, d⟩ := p
  simp only at hs hb ⊢
  obtain ⟨hy₀, hy₁, hd₀, hd₁⟩ := hb
  generalize hm : (5 * d + 2) / 153 = m
  have hm₀ : 0 ≤ m := by omega
  have hm₁ : m ≤ 11 := by omega
  have hday : 0 ≤ d - monthStart m := by simp only [monthStart]; omega
  have hdiv : (era * 400 + y) / 400 = era := by omega
  have hmod : (era * 400 + y) % 400 = y := by omega
  by_cases h : m < 10
  · have h1 : ¬ (m + 3).toNat ≤ 2 := by omega
    have h2 : ((m + 3).toNat + 9 : Int) % 12 = m := by omega
    have h3 : ¬ m + 3 ≤ 2 := by omega
    simp only [h, h1, h2, h3, if_true, if_false, Int.add_zero, hdiv, hmod]
    omega
  · have h1 : (m - 9).toNat ≤ 2 := by omega
    have h2 : ((m - 9).toNat + 9 : Int) % 12 = m := by omega
    have h3 : m - 9 ≤ 2 := by omega
    simp only [h, h1, h2, h3, if_true, if_false, Int.add_sub_cancel, hdiv, hmod]
    omega

theorem isLeap_iff (year : Int) :
    isLeap year = true ↔ year % 4 = 0 ∧ (year % 100 ≠ 0 ∨ year % 400 = 0) := by
  simp [isLeap]

/-- Only a year that ends with a leap day has 366 days. -/
theorem isLeap_of_lastDay {n : Int} (h₀ : 0 ≤ n) (h₁ : n < 146097) (h : (yearOfEra n).2 = 365) (era : Int) :
    isLeap (era * 400 + (yearOfEra n).1 + 1) = true := by
  rw [isLeap_iff]
  revert h
  simp only [yearOfEra]
  generalize hc : min (n / 36524) 3 = c
  generalize hq : (n - 36524 * c) / 1461 = q
  generalize hy : min ((n - 36524 * c) % 1461 / 365) 3 = y
  intro h
  have hy3 : y = 3 := by omega
  subst hy3
  have hq₁ : q ≤ 24 := by omega
  have hr : (n - 36524 * c) % 1461 = 1460 := by omega
  refine ⟨by omega, ?_⟩
  by_cases h24 : q = 24
  · have hc3 : c = 3 := by omega
    right
    omega
  · left
    omega

theorem valid_ofDay (n : Int) : (ofDay n).Valid := by
  have h₀ : 0 ≤ (n + 719468) % 146097 := by omega
  have h₁ : (n + 719468) % 146097 < 146097 := by omega
  have hb := yearOfEra_bounds h₀ h₁
  have hl := isLeap_of_lastDay h₀ h₁
  unfold ofDay
  generalize yearOfEra _ = p at hb hl ⊢
  generalize (n + 719468) / 146097 = era
  obtain ⟨y, d⟩ := p
  simp only at hb hl ⊢
  obtain ⟨-, -, hd₀, hd₁⟩ := hb
  have hl' := fun h => hl h era
  generalize hm : (5 * d + 2) / 153 = m
  have hm₀ : 0 ≤ m := by omega
  have hm₁ : m ≤ 11 := by omega
  have hcases : m = 0 ∨ m = 1 ∨ m = 2 ∨ m = 3 ∨ m = 4 ∨ m = 5 ∨ m = 6 ∨ m = 7 ∨ m = 8 ∨ m = 9 ∨ m = 10 ∨ m = 11 := by omega
  rcases hcases with rfl | rfl | rfl | rfl | rfl | rfl | rfl | rfl | rfl | rfl | rfl | rfl
  case inr.inr.inr.inr.inr.inr.inr.inr.inr.inr.inr =>
    by_cases h : d = 365
    · simp [Valid, daysIn, monthStart, h, hl' h]
    · simp [Valid, daysIn, monthStart]
      split <;> omega
  all_goals
    simp [Valid, daysIn, monthStart]
    omega

end Date
end FileFixture
