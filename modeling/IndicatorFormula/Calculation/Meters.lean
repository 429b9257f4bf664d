import IndicatorFormula.Calculation.Run

/-!
# Meters

What is counted over many runs: how many began and how long they took, how they ended, and
how many points each fetched series had. A meter keeps what it observed, and its figures
are counts of that.
-/

namespace IndicatorFormula

/-- What was observed of some runs. -/
structure Meters where
  /-- The runs that began. -/
  started : Nat := 0
  /-- The runs whose duration was taken. -/
  timed : Nat := 0
  /-- The outputs of the runs that succeeded. -/
  succeeded : List OutputForm := []
  /-- The errors of the runs that failed. -/
  failed : List ErrorCode := []
  /-- The counts of points of the series that were fetched. -/
  fetched : List Nat := []
  deriving DecidableEq, Repr

namespace Meters

/-- What was observed of a run of a calculation with a declared output. -/
def ofRun (type : OutputForm) (run : Run) : Meters where
  started := 1
  timed := 1
  succeeded := match run.ending with
    | .succeeded _ _ _ => [type]
    | _ => []
  failed := match run.ending with
    | .failed _ e => [e.code]
    | _ => []
  fetched := run.counts

/-- Observations followed by others. -/
def append (a b : Meters) : Meters :=
  ⟨a.started + b.started, a.timed + b.timed, a.succeeded ++ b.succeeded, a.failed ++ b.failed,
    a.fetched ++ b.fetched⟩

instance : Append Meters := ⟨append⟩

/-- The upper bounds of the classes in which fetched series are counted. -/
def bounds : List Nat := [10, 100, 1000]

/-- All figures by name. -/
def allFigures (m : Meters) : List (String × Nat) :=
  [("started", m.started), ("timed", m.timed)] ++
    [OutputForm.single, .series].map
      (fun t => ("succeeded." ++ t.name, m.succeeded.countP (· = t))) ++
    ErrorCode.all.map (fun k => ("failed." ++ k.name, m.failed.countP (· = k))) ++
    [("fetches", m.fetched.length), ("points", m.fetched.foldl (· + ·) 0)] ++
    bounds.map fun b => (s!"points_le_{b}.0", m.fetched.countP (· ≤ b))

/-- The figures that are not zero. -/
def figures (m : Meters) : List (String × Nat) := m.allFigures.filter fun f => f.2 ≠ 0

end Meters

end IndicatorFormula
