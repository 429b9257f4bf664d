import IndicatorFormula.Error

/-!
# Stores of series

A store says whether an indicator exists and is active, and delivers its observations. Each
call is answered or fails in one of the ways listed here.
-/

namespace IndicatorFormula

/-- How a call to a store can fail. -/
inductive StoreFault where
  /-- The system below the store fails. -/
  | outage (message : String)
  /-- The store finds something that it cannot take. -/
  | invalid (message : String)
  /-- The store holds no series of that name. -/
  | noSeries (slug : String)
  /-- The store breaks while it runs. -/
  | broken (message : String)
  /-- The store looks for a key that is not there, which is a defect of the store. -/
  | missingKey (message : String)
  /-- The store states an error of its own, which is passed on as it is. -/
  | stated (e : CalcError)
  deriving Repr

/-- An error of a store that states it in its own words. -/
def unavailable (message : String) : CalcError := { cause := .stated .sourceUnavailable message }

/-- The words for a series that is not there. -/
def seriesNotFound (slug : String) : String := s!"Series not found: {slug}"

/-- The error that a caller is told when a store fails while it does something with an
indicator; a defect of the store has none. -/
def StoreFault.error? (activity slug : String) : StoreFault → Option CalcError
  | outage message => some (unavailable s!"Series store failed {activity} {slug}: {message}")
  | invalid message => some (unavailable s!"Series store failed {activity} {slug}: {message}")
  | noSeries name =>
    some (unavailable s!"Series store failed {activity} {slug}: {seriesNotFound name}")
  | broken message => some (unavailable s!"Series store failed {activity} {slug}: {message}")
  | missingKey _ => none
  | stated e => some e

/-- A store of series. -/
structure SeriesStore where
  /-- Whether an indicator exists and is active. -/
  isActive : String → Except StoreFault Bool
  /-- The observations of an indicator between two dates. -/
  fetch : String → Option Date → Option Date → Except StoreFault (List (Observation Float))

/-- A call to a store. -/
inductive StoreCall where
  /-- Whether an indicator exists and is active. -/
  | isActive (slug : String)
  /-- The observations of an indicator between two dates. -/
  | fetch (slug : String) (first last : Option Date)
  deriving DecidableEq, Repr

/-- What came of asking for several indicators. -/
structure Survey where
  /-- The calls that were made. -/
  calls : List StoreCall
  /-- The indicators that are not there, or the indicator at which the store failed. -/
  outcome : Except (String × StoreFault) (List String)

namespace SeriesStore

/-- Ask for indicators one after another until the store fails. -/
def survey (store : SeriesStore) : List String → Survey
  | [] => ⟨[], .ok []⟩
  | slug :: rest =>
    match store.isActive slug with
    | .error fault => ⟨[.isActive slug], .error (slug, fault)⟩
    | .ok active =>
      let others := survey store rest
      ⟨.isActive slug :: others.calls,
        others.outcome.map fun missing => if active then missing else slug :: missing⟩

end SeriesStore

/-- What came of fetching several series. -/
structure Harvest where
  /-- The calls that were made. -/
  calls : List StoreCall
  /-- The observations that were delivered, by indicator. -/
  series : List (String × List (Observation Float))
  /-- The indicator at which the store failed, if it did. -/
  failure : Option (String × StoreFault)

namespace SeriesStore

/-- Fetch series one after another until the store fails. -/
def harvest (store : SeriesStore) (first last : Option Date) : List String → Harvest
  | [] => ⟨[], [], none⟩
  | slug :: rest =>
    match store.fetch slug first last with
    | .error fault => ⟨[.fetch slug first last], [], some (slug, fault)⟩
    | .ok observations =>
      let others := harvest store first last rest
      ⟨.fetch slug first last :: others.calls, (slug, observations) :: others.series,
        others.failure⟩

end SeriesStore

end IndicatorFormula
