import IndicatorFormula.Calendar.Zone

/-!
# Time stamps

A stamp is a date with a time of day, and perhaps the distance from universal time at
which its clock stands. A stamp without that distance is taken as local wherever it is
used; one with it names an instant, whose date depends on the zone that asks.
-/

namespace IndicatorFormula

open Decimal

/-- A date with a time of day. -/
structure Stamp where
  /-- The date that its own clock shows. -/
  date : Date
  /-- The second of the day. -/
  second : Nat
  /-- The millionths of a second. -/
  micro : Nat
  /-- The minutes by which its clock is ahead of universal time, when that is known. -/
  minutesAhead : Option Int
  deriving DecidableEq, Repr

namespace Stamp

/-- The beginning of a date, on no clock in particular. -/
def ofDate (d : Date) : Stamp := ⟨d, 0, 0, none⟩

/-- Whether the stamp names an instant. -/
def isAware (s : Stamp) : Bool := s.minutesAhead.isSome

/-- The instant that the stamp names, if its clock is known. -/
def instant? (s : Stamp) : Option Int :=
  s.minutesAhead.map fun minutes =>
    s.date.ordinal * secondsPerDay + s.second - minutes * 60

/-- The number that a field of digits spells; any other character spoils it. -/
def field? (cs : List Char) : Option Nat :=
  if cs.all Char.isDigit && !cs.isEmpty then
    some (cs.foldl (fun total c => 10 * total + (c.toNat - 48)) 0)
  else none

/-- A date written as year, month and day. -/
def readDate? : List Char → Option (Date × List Char)
  | y1 :: y2 :: y3 :: y4 :: '-' :: m1 :: m2 :: '-' :: d1 :: d2 :: rest => do
    let year ← field? [y1, y2, y3, y4]
    let month ← field? [m1, m2]
    let day ← field? [d1, d2]
    some (Date.ofCivil ⟨year, month, day⟩, rest)
  | _ => none

/-- A time of day written as hour, minute and second. -/
def readTime? : List Char → Option (Nat × List Char)
  | h1 :: h2 :: ':' :: m1 :: m2 :: ':' :: s1 :: s2 :: rest => do
    let hour ← field? [h1, h2]
    let minute ← field? [m1, m2]
    let second ← field? [s1, s2]
    some (3600 * hour + 60 * minute + second, rest)
  | _ => none

/-- Up to six digits behind a point, read as millionths. -/
def readFraction : List Char → Nat × List Char
  | '.' :: rest =>
    let digits := (rest.takeWhile Char.isDigit).take 6
    ((field? (digits ++ List.replicate (6 - digits.length) '0')).getD 0,
      rest.dropWhile Char.isDigit)
  | cs => (0, cs)

/-- The distance from universal time at the end of a stamp. -/
def readAhead? : List Char → Option (Option Int)
  | [] => some none
  | ['Z'] => some (some 0)
  | [sign, h1, h2, ':', m1, m2] => do
    let hour ← field? [h1, h2]
    let minute ← field? [m1, m2]
    let minutes : Int := 60 * hour + minute
    match sign with
    | '+' => some (some minutes)
    | '-' => some (some (-minutes))
    | _ => none
  | _ => none

/-- Read a stamp; a date alone is its beginning. -/
def ofText? (s : String) : Option Stamp := do
  let (date, rest) ← readDate? s.toList
  match rest with
  | [] => some (ofDate date)
  | _ :: rest =>
    let (second, rest) ← readTime? rest
    let (micro, rest) := readFraction rest
    let minutesAhead ← readAhead? rest
    some ⟨date, second, micro, minutesAhead⟩

/-- The distance from universal time as it is written. -/
def aheadText (minutes : Int) : String :=
  (if minutes < 0 then "-" else "+") ++ zeroPadded 2 (minutes.natAbs / 60) ++ ":" ++
    zeroPadded 2 (minutes.natAbs % 60)

/-- The stamp with all its parts; millionths are written only where there are some. -/
def text (s : Stamp) : String :=
  s.date.text ++ "T" ++ zeroPadded 2 (s.second / 3600) ++ ":" ++
    zeroPadded 2 (s.second / 60 % 60) ++ ":" ++ zeroPadded 2 (s.second % 60) ++
    (if s.micro = 0 then "" else "." ++ zeroPadded 6 s.micro) ++
    (match s.minutesAhead with | none => "" | some minutes => aheadText minutes)

end Stamp

end IndicatorFormula
