import IndicatorFormula.Series.Basic
import IndicatorFormula.Series.DataError

/-!
# Seasons

A season is a cycle within the year. Which one a series follows is read off the median
distance between its dates, counted in half days so that it is a whole number.
-/

namespace IndicatorFormula

/-- A cycle within the year. -/
inductive Season where
  /-- The five working days of a week. -/
  | workingDays
  /-- The seven days of a week. -/
  | weekdays
  /-- The weeks of a year. -/
  | weeks
  /-- The months of a year. -/
  | months
  /-- The quarters of a year. -/
  | quarters
  deriving DecidableEq, Repr

namespace Season

/-- The count of periods in a cycle. -/
def length : Season → Nat
  | workingDays => 5
  | weekdays => 7
  | weeks => 52
  | months => 12
  | quarters => 4

/-- The period of the cycle in which a date lies; the rare week 53 counts as week 52. -/
def period : Season → Date → Nat
  | workingDays, d => d.weekday
  | weekdays, d => d.weekday
  | weeks, d => min d.week 52
  | months, d => d.month
  | quarters, d => d.quarter

/-- The distances between successive dates. -/
def spacings (ds : List Date) : List Int := List.zipWith Date.daysSince (ds.drop 1) ds

/-- Twice the median of some numbers. -/
def doubledMedian (xs : List Int) : Int :=
  let sorted := xs.mergeSort
  sorted.getD ((xs.length - 1) / 2) 0 + sorted.getD (xs.length / 2) 0

/-- The season of a series with given dates. -/
def infer (ds : List Date) : Except DataError Season :=
  if ds.length < 2 then .error (.needsSpacing ds.length)
  else
    let halfDays := doubledMedian (spacings ds)
    if halfDays ≤ 3 then .ok (if ds.all (·.weekday < 5) then workingDays else weekdays)
    else if halfDays ≤ 20 then .ok weeks
    else if halfDays ≤ 90 then .ok months
    else if halfDays ≤ 240 then .ok quarters
    else .error (.noCycle halfDays)

end Season

end IndicatorFormula
