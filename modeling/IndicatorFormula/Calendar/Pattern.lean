import IndicatorFormula.Calendar.Date

/-!
# Date patterns

A pattern is text in which a percent sign and a letter stand for a part of a date. Dates
carry no time of day, so hours, minutes and seconds are zero. A percent sign that begins
no known pair stands for itself.
-/

namespace IndicatorFormula.Date

/-- The names of the months. -/
def monthNames : List String :=
  ["January", "February", "March", "April", "May", "June", "July", "August", "September",
    "October", "November", "December"]

/-- The names of the days of the week, from Monday. -/
def weekdayNames : List String :=
  ["Monday", "Tuesday", "Wednesday", "Thursday", "Friday", "Saturday", "Sunday"]

/-- The full name of the month. -/
def monthName (d : Date) : String := monthNames.getD (d.month - 1) ""

/-- The full name of the day of the week. -/
def weekdayName (d : Date) : String := weekdayNames.getD d.weekday ""

/-- The first three letters of a name. -/
def abbreviated (name : String) : String := String.ofList (name.toList.take 3)

/-- The number of the week, weeks beginning on Sunday and the first Sunday opening week 1. -/
def sundayWeek (d : Date) : Nat := (d.dayOfYear + 6 - (d.weekday + 1) % 7) / 7

/-- The number of the week, weeks beginning on Monday and the first Monday opening week 1. -/
def mondayWeek (d : Date) : Nat := (d.dayOfYear + 6 - d.weekday) / 7

/-- The month, day and year, two digits each. -/
def shortDate (d : Date) : String :=
  zeroPadded 2 d.month ++ "/" ++ zeroPadded 2 d.day ++ "/" ++ zeroPadded 2 (d.year % 100)

/-- The year, month and day, with as many digits as the year has. -/
def longDate (d : Date) : String :=
  toString d.year ++ "-" ++ zeroPadded 2 d.month ++ "-" ++ zeroPadded 2 d.day

/-- What a letter behind a percent sign stands for. -/
def part? (d : Date) : Char → Option String
  | 'Y' => some (toString d.year)
  | 'm' => some (zeroPadded 2 d.month)
  | 'd' => some (zeroPadded 2 d.day)
  | 'y' => some (zeroPadded 2 (d.year % 100))
  | 'b' => some (abbreviated (monthName d))
  | 'B' => some (monthName d)
  | 'a' => some (abbreviated (weekdayName d))
  | 'A' => some (weekdayName d)
  | 'j' => some (zeroPadded 3 d.dayOfYear)
  | 'H' => some "00"
  | 'M' => some "00"
  | 'S' => some "00"
  | 'U' => some (zeroPadded 2 (sundayWeek d))
  | 'W' => some (zeroPadded 2 (mondayWeek d))
  | 'w' => some (toString ((d.weekday + 1) % 7))
  | 'u' => some (toString (d.weekday + 1))
  | 'G' => some (toString d.weekYear)
  | 'V' => some (zeroPadded 2 d.week)
  | 'e' => some (padded ' ' 2 d.day)
  | 'F' => some (longDate d)
  | 'D' => some (shortDate d)
  | '%' => some "%"
  | _ => none

/-- Write a date by a pattern. -/
def fill (d : Date) : List Char → List Char
  | '%' :: c :: rest =>
    match part? d c with
    | some text => text.toList ++ fill d rest
    | none => '%' :: c :: fill d rest
  | c :: rest => c :: fill d rest
  | [] => []

/-- The date written by a pattern, which must not hold the character zero. -/
def write (pattern : String) (d : Date) : Except String String :=
  if '\x00' ∈ pattern.toList then .error "embedded null character"
  else .ok (String.ofList (fill d pattern.toList))

end IndicatorFormula.Date
