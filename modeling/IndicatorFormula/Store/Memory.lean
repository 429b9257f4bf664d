import IndicatorFormula.Store.Basic
import IndicatorFormula.Table

/-!
# A store in memory

Indicators with their series, held in tables. An indicator is entered before its points
are looked at, so that one with a bad point is known but has no new series.
-/

namespace IndicatorFormula

/-- What is known of an indicator. -/
structure Indicator where
  /-- Its name. -/
  slug : String
  /-- The unit of its values. -/
  unit : Option String := none
  /-- How often it is observed. -/
  frequency : Option String := none
  /-- Whether it is in use. -/
  active : Bool := true
  deriving DecidableEq, Repr

/-- Indicators with their series. -/
structure MemoryStore where
  /-- What is known of the indicators. -/
  indicators : Table String Indicator := []
  /-- Their points, one for each date and in the order of dates. -/
  points : Table String (Series Float) := []
  deriving Repr

namespace MemoryStore

/-- A row that is handed in as an observation. -/
structure Row where
  /-- When it was observed, if the stamp can be read. -/
  stamp : Option Stamp
  /-- What was observed, if it is a number. -/
  value : Option Float
  deriving Repr

/-- Why a row is no point. -/
inductive RowFault where
  /-- The stamp cannot be read. -/
  | unreadableStamp
  /-- The value is no number. -/
  | noNumber
  deriving DecidableEq, Repr

namespace Row

/-- An observation as a row. -/
def ofObservation (o : Observation Float) : Row := ⟨some o.stamp, o.value⟩

/-- The point of a row. It has the date of its own clock. -/
def point (r : Row) : Except RowFault (Date × Float) :=
  match r.stamp with
  | none => .error .unreadableStamp
  | some stamp => match r.value with
    | none => .error .noNumber
    | some x => .ok (stamp.date, x)

end Row

/-- The points of rows, in the order of the rows. -/
def givenPoints (rows : List Row) : Except RowFault (List (Date × Float)) := rows.mapM Row.point

/-- Enter an indicator. -/
def register (store : MemoryStore) (info : Indicator) : MemoryStore :=
  { store with indicators := store.indicators.put info.slug info }

/-- Enter an indicator with its rows, of which the last of a date counts. The store afterwards
is given also when a row is bad. -/
def enter (store : MemoryStore) (info : Indicator) (rows : List Row) :
    Except RowFault Unit × MemoryStore :=
  let registered := store.register info
  match givenPoints rows with
  | .error fault => (.error fault, registered)
  | .ok points =>
    (.ok (), { registered with points := registered.points.put info.slug (Series.latest points) })

/-- Enter an indicator with its observations. Their stamps have been read, so that only a value
can be bad. -/
def add (store : MemoryStore) (info : Indicator) (observations : List (Observation Float)) :
    Except ObservationFault Unit × MemoryStore :=
  let (outcome, after) := store.enter info (observations.map Row.ofObservation)
  (outcome.mapError fun _ => .missingValue, after)

/-- What is known of an indicator. -/
def info? (store : MemoryStore) (slug : String) : Option Indicator :=
  store.indicators.find? slug

/-- Whether an indicator exists and is in use. -/
def isActive (store : MemoryStore) (slug : String) : Bool := (store.info? slug).any (·.active)

/-- The points of an indicator between two dates. -/
def fetch (store : MemoryStore) (slug : String) (first last : Option Date) :
    Except StoreFault (Series Float) :=
  match store.points.find? slug with
  | some s => .ok (s.between first last)
  | none => .error (.noSeries slug)

/-- Points as observations at the beginning of their dates. -/
def observationsOf (s : Series Float) : List (Observation Float) :=
  s.map fun p => ⟨Stamp.ofDate p.1, some p.2⟩

/-- The tables as a store of series. -/
def toStore (store : MemoryStore) : SeriesStore where
  isActive slug := .ok (store.isActive slug)
  fetch slug first last := (store.fetch slug first last).map observationsOf

end MemoryStore

end IndicatorFormula
