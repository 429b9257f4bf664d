import IndicatorFormula.Calendar.Date

/-!
# Time zones

A zone tells which date its clocks show at an instant, as a database of zones says. An instant is
a count of seconds from the beginning of day 0. Some zones with a simple rule are given here.
-/

namespace IndicatorFormula

/-- The seconds of a day. -/
def secondsPerDay : Int := 86400

/-- A time zone. -/
structure Zone where
  /-- The date that a clock of the zone shows at an instant, if it can be told. -/
  dateAt? : Int → Option Date

namespace Zone

/-- The zone whose clocks are ahead of universal time by the minutes that are told for an
instant. -/
def ahead (minutes : Int → Int) : Zone :=
  ⟨fun instant => some ⟨(instant + minutes instant * 60) / secondsPerDay⟩⟩

/-- A zone that is always the same count of minutes ahead of universal time. -/
def fixed (minutes : Int) : Zone := ahead fun _ => minutes

/-- The first Sunday on or after a date. -/
def sundayFrom (d : Date) : Date := ⟨d.ordinal + (6 - d.weekday)⟩

/-- Daylight time begins at two o'clock on the second Sunday of March. -/
def daylightBegins (year : Int) : Int :=
  (sundayFrom (Date.ofCivil ⟨year, 3, 8⟩)).ordinal * secondsPerDay + 7 * 3600

/-- Daylight time ends at two o'clock on the first Sunday of November. -/
def daylightEnds (year : Int) : Int :=
  (sundayFrom (Date.ofCivil ⟨year, 11, 1⟩)).ordinal * secondsPerDay + 6 * 3600

/-- Eastern time of North America, with daylight time in summer as it has been since 2007. -/
def eastern : Zone := ahead fun instant =>
  let year := Date.year ⟨instant / secondsPerDay⟩
  if daylightBegins year ≤ instant ∧ instant < daylightEnds year then -240 else -300

/-- Some zones by name. -/
def named : List (String × Zone) := [
  ("UTC", fixed 0), ("Asia/Tokyo", fixed 540), ("Asia/Kolkata", fixed 330),
  ("America/New_York", eastern)]

end Zone

end IndicatorFormula
