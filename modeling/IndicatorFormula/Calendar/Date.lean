import IndicatorFormula.Decimal.Rounding

/-!
# Calendar dates

A date is a count of days, so that order and spacing are those of whole numbers. Year,
month and day are computed by the rules of the Gregorian calendar, extended to all years.
-/

namespace IndicatorFormula

open Decimal

/-- A day of the Gregorian calendar. -/
structure Date where
  /-- The number of the day; the first of January of the year 1 is day 1. -/
  ordinal : Int
  deriving DecidableEq, Repr

/-- Year, month and day of a date. -/
structure Civil where
  /-- The year. -/
  year : Int
  /-- The month, from 1 to 12. -/
  month : Nat
  /-- The day of the month, from 1. -/
  day : Nat
  deriving DecidableEq, Repr

namespace Date

instance : LT Date := ⟨fun a b => a.ordinal < b.ordinal⟩
instance : LE Date := ⟨fun a b => a.ordinal ≤ b.ordinal⟩
instance (a b : Date) : Decidable (a < b) := inferInstanceAs (Decidable (a.ordinal < b.ordinal))
instance (a b : Date) : Decidable (a ≤ b) := inferInstanceAs (Decidable (a.ordinal ≤ b.ordinal))

theorem lt_iff {a b : Date} : a < b ↔ a.ordinal < b.ordinal := Iff.rfl

theorem le_iff {a b : Date} : a ≤ b ↔ a.ordinal ≤ b.ordinal := Iff.rfl

theorem le_trans {a b c : Date} (hab : a ≤ b) (hbc : b ≤ c) : a ≤ c := Int.le_trans hab hbc

theorem le_of_lt {a b : Date} (h : a < b) : a ≤ b := Int.le_of_lt h

theorem le_of_not_lt {a b : Date} (h : ¬a < b) : b ≤ a := Int.not_lt.mp h

theorem ext_ordinal {a b : Date} (h : a.ordinal = b.ordinal) : a = b := by
  cases a; cases b; exact congrArg Date.mk h

/-- Two dates are the same or one is earlier. -/
theorem lt_trichotomy (a b : Date) : a < b ∨ a = b ∨ b < a := by
  rcases Int.lt_trichotomy a.ordinal b.ordinal with h | h | h
  · exact .inl h
  · exact .inr (.inl (ext_ordinal h))
  · exact .inr (.inr h)

end Date

/-- Every fourth year is a leap year, except three of four centuries. -/
def isLeapYear (year : Int) : Bool := year % 4 = 0 && (year % 100 ≠ 0 || year % 400 = 0)

/-- The days of a year before the first of a month. -/
def daysBeforeMonth (leap : Bool) (month : Nat) : Nat :=
  let common := match month with
    | 2 => 31 | 3 => 59 | 4 => 90 | 5 => 120 | 6 => 151 | 7 => 181 | 8 => 212 | 9 => 243
    | 10 => 273 | 11 => 304 | 12 => 334 | _ => 0
  if leap && 2 < month then common + 1 else common

/-- The days before the first of January of a year, counted from the year 1. -/
def daysBeforeYear (year : Int) : Int :=
  let y := year - 1
  365 * y + y / 4 - y / 100 + y / 400

namespace Date

/-- The date of a year, month and day. -/
def ofCivil (c : Civil) : Date :=
  ⟨daysBeforeYear c.year + daysBeforeMonth (isLeapYear c.year) c.month + c.day⟩

/-- The year of a date: the estimate by mean length is at most one year too small. -/
def year (d : Date) : Int :=
  let estimate := (d.ordinal - 1) * 400 / 146097 + 1
  if daysBeforeYear (estimate + 1) < d.ordinal then estimate + 1
  else if daysBeforeYear estimate < d.ordinal then estimate
  else estimate - 1

/-- The day of the year, from 1. -/
def dayOfYear (d : Date) : Nat := (d.ordinal - daysBeforeYear d.year).toNat

/-- The month of a date: the last one that begins before the day. -/
def month (d : Date) : Nat :=
  let leap := isLeapYear d.year
  ((List.range 12).reverse.find? fun m => daysBeforeMonth leap (m + 1) < d.dayOfYear).getD 0 + 1

/-- The day of the month. -/
def day (d : Date) : Nat := d.dayOfYear - daysBeforeMonth (isLeapYear d.year) d.month

/-- Year, month and day together. -/
def civil (d : Date) : Civil := ⟨d.year, d.month, d.day⟩

/-- The quarter of the year, from 1 to 4. -/
def quarter (d : Date) : Nat := (d.month - 1) / 3 + 1

/-- The day of the week, Monday being 0. -/
def weekday (d : Date) : Nat := ((d.ordinal - 1) % 7).toNat

/-- The Thursday of the same week, which decides to what year the week belongs. -/
def thursday (d : Date) : Date := ⟨d.ordinal - d.weekday + 3⟩

/-- The year to which the week belongs. -/
def weekYear (d : Date) : Int := d.thursday.year

/-- The number of the week in its year, from 1. -/
def week (d : Date) : Nat := (d.thursday.dayOfYear - 1) / 7 + 1

/-- The days from one date to another. -/
def daysSince (later earlier : Date) : Int := later.ordinal - earlier.ordinal

end Date

/-- A number filled up with a character to a width. -/
def padded (fill : Char) (width : Nat) (n : Int) : String :=
  let digits := decimalDigits n.natAbs
  (if n < 0 then "-" else "") ++
    String.ofList (List.replicate (width - digits.length) fill ++ digits)

/-- A number filled up with zeros. -/
def zeroPadded (width : Nat) (n : Int) : String := padded '0' width n

/-- The date as year, month and day, four, two and two digits wide. -/
def Date.text (d : Date) : String :=
  let c := d.civil
  zeroPadded 4 c.year ++ "-" ++ zeroPadded 2 c.month ++ "-" ++ zeroPadded 2 c.day

end IndicatorFormula
