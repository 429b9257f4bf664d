import IndicatorFormula.Calculation.Catalog
import IndicatorFormula.Calculation.Verdict
import IndicatorFormula.Calculation.Meters
import IndicatorFormula.Store.Memory

/-!
# Workspaces

A store in memory, a repository, a clock and meters, used together. Calls to the store can be
planned to fail, and the workspace remembers the calls until they are asked for.
-/

namespace IndicatorFormula

/-- The kinds of calls to a store. -/
inductive StoreActivity where
  /-- Asking whether an indicator is active. -/
  | isActive
  /-- Fetching observations. -/
  | fetch
  deriving DecidableEq, Repr

/-- The calls that fail, with how they fail. -/
abbrev FailurePlan := Table (StoreActivity × String) StoreFault

/-- A store in which the planned calls fail and the others are answered as before. -/
def SeriesStore.failing (plan : FailurePlan) (store : SeriesStore) : SeriesStore where
  isActive slug := match plan.find? (.isActive, slug) with
    | some fault => .error fault
    | none => store.isActive slug
  fetch slug first last := match plan.find? (.fetch, slug) with
    | some fault => .error fault
    | none => store.fetch slug first last

/-- Everything that a program works with. -/
structure Workspace where
  /-- The indicators. -/
  store : MemoryStore := {}
  /-- The calls that are to fail. -/
  plan : FailurePlan := []
  /-- The calculations. -/
  repository : Repository := {}
  /-- What the clock shows. -/
  now : Stamp
  /-- The calls to the store that have not been asked for. -/
  calls : List StoreCall := []
  /-- What was observed of the runs. -/
  meters : Meters := {}

namespace Workspace

/-- The store with the failures that are planned. -/
def series (w : Workspace) : SeriesStore := w.store.toStore.failing w.plan

/-- Whether an indicator is active. -/
def isActive (w : Workspace) (slug : String) : Except StoreFault Bool × Workspace :=
  (w.series.isActive slug, { w with calls := w.calls ++ [.isActive slug] })

/-- The observations of an indicator. -/
def fetch (w : Workspace) (slug : String) (first last : Option Date) :
    Except StoreFault (List (Observation Float)) × Workspace :=
  (w.series.fetch slug first last, { w with calls := w.calls ++ [.fetch slug first last] })

/-- The calls since they were last asked for. -/
def takeCalls (w : Workspace) : List StoreCall × Workspace := (w.calls, { w with calls := [] })

/-- Check a formula, with or without the store. -/
def check (w : Workspace) (withStore : Bool) (formula : String) :
    Except Verdict.Interruption Verdict × Workspace :=
  let (calls, outcome) := Verdict.run (if withStore then some w.series else none) formula
  (outcome, { w with calls := w.calls ++ calls })

/-- Run a calculation. -/
def execute (w : Workspace) (keep : Bool) (context : Context) (c : Calculation) :
    Execution × Workspace :=
  let execution := c.execute w.series w.now w.repository keep context
  (execution, {
    w with
    repository := execution.repository
    calls := w.calls ++ execution.run.calls
    meters := w.meters ++ Meters.ofRun c.outputForm execution.run })

end Workspace

end IndicatorFormula
