import IndicatorFormula.Calendar.Stamp
import IndicatorFormula.Context

/-!
# Observations

An observation is a stamp with a value, as a store delivers it. A series is made of
observations by taking each to its local date, putting them in date order, keeping the last of
each date and then leaving out what is no number.
-/

namespace IndicatorFormula

/-- A stamped value, which may be missing. -/
structure Observation (α : Type) where
  /-- When it was observed. -/
  stamp : Stamp
  /-- What was observed. -/
  value : Option α
  deriving Repr

/-- Why observations make no series. -/
inductive ObservationFault where
  /-- A stamp names an instant and the zone in which to date it is not known. -/
  | unknownZone (name : String)
  /-- A value is missing. -/
  | missingValue
  /-- A date cannot be told or is not one that the index can hold. -/
  | outOfRange
  deriving DecidableEq, Repr

namespace Series

variable {α : Type}

/-- The local date of a stamp; the zone matters only for a stamp that names an instant. -/
def localDate (context : Context) (s : Stamp) : Except ObservationFault Date :=
  match s.instant? with
  | none => .ok s.date
  | some instant =>
    match context.zone? with
    | none => .error (.unknownZone context.timezone)
    | some zone =>
      match zone.dateAt? instant with
      | none => .error .outOfRange
      | some d => .ok d

/-- The value of an observation. -/
def given (x : Option α) : Except ObservationFault α :=
  match x with
  | some x => .ok x
  | none => .error .missingValue

/-- Observations as dated values; all stamps are looked at before any value. -/
def dated (context : Context) (observations : List (Observation α)) :
    Except ObservationFault (List (Date × α)) := do
  let ds ← observations.mapM fun o => localDate context o.stamp
  let xs ← observations.mapM fun o => given o.value
  return ds.zip xs

/-- Dated values in an index that can hold their dates. -/
def indexed (index : DateIndex) (points : List (Date × α)) :
    Except ObservationFault (Series α) :=
  if (dates points).all index.holds then .ok (collected index points) else .error .outOfRange

/-- The series of some observations. -/
def ofObservations [Arith α] (context : Context) (observations : List (Observation α)) :
    Except ObservationFault (Series α) := do
  let points ← dated context observations
  let s ← indexed context.index points
  return s.filter fun p => !Arith.isNaN p.2

end Series

end IndicatorFormula
