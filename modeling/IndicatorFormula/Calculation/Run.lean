import IndicatorFormula.Calculation.Repository
import IndicatorFormula.Calculation.Outcome
import IndicatorFormula.Formula.Dependencies
import IndicatorFormula.Formula.Evaluate
import IndicatorFormula.Formula.Reader
import IndicatorFormula.Store.Basic

/-!
# Running calculations

A run reads the formula, asks the store for every indicator, fetches the series only if all
are there, evaluates and brings the value into line with the declared output. It gives the
calls it made, the events it passed and how it ended. Only a run that succeeds, and whose value
can be rendered, changes the calculation, and only then is the calculation kept.
-/

namespace IndicatorFormula

/-- Something that happens during a run. -/
inductive RunEvent where
  /-- The run begins. -/
  | started (formula : String)
  /-- All indicators are there. -/
  | resolved (dependencies : List String)
  /-- A series was fetched. -/
  | fetched (slug : String) (points : Nat)
  /-- The run gave an error. -/
  | failed (stage : Stage) (e : CalcError)
  /-- The run gave a value. -/
  | succeeded (shape : Shape)
  deriving Repr

/-- What makes a run break off without a result. -/
inductive Escape where
  /-- The evaluation broke off. -/
  | evaluation (f : Fault)
  /-- The store has a defect. -/
  | store (f : StoreFault)
  /-- The value cannot be rendered. -/
  | rendering (message : String)
  /-- The clock breaks off. -/
  | clock (message : String)
  /-- The repository breaks off. -/
  | saving (message : String)
  deriving Repr

/-- How a run ends. -/
inductive Ending where
  /-- With a value, the date of the point it stands for, and the indicators it used. -/
  | succeeded (value : Value) (asOf : Option Date) (dependencies : List String)
  /-- With an error in some stage. -/
  | failed (stage : Stage) (e : CalcError)
  /-- Without a result. -/
  | escaped (e : Escape)
  deriving Repr

/-- A run. -/
structure Run where
  /-- The calls to the store, in order. -/
  calls : List StoreCall := []
  /-- The events, in order. -/
  events : List RunEvent := []
  /-- The counts of points of the series that were fetched. -/
  counts : List Nat := []
  /-- How the run ended. -/
  ending : Ending
  deriving Repr

namespace Run

/-- A run that ends with an error, given what came before. -/
def failing (calls : List StoreCall) (events : List RunEvent) (counts : List Nat)
    (stage : Stage) (e : CalcError) : Run :=
  ⟨calls, events ++ [.failed stage e], counts, .failed stage e⟩

/-- A run that ends with a failure of the store, given what came before. -/
def stopped (calls : List StoreCall) (events : List RunEvent) (counts : List Nat)
    (stage : Stage) (activity slug : String) (fault : StoreFault) : Run :=
  match fault.error? activity slug with
  | some e => failing calls events counts stage e
  | none => ⟨calls, events, counts, .escaped (.store fault)⟩

/-- The value of a formula over fetched series, in line with the declared output. -/
def conclude (tree : Formula) (type : OutputForm) (context : Context)
    (series : List (String × List (Observation Float))) : Except Fault (Value × Option Date) :=
  match tree.evaluate series context with
  | .error fault => .error fault
  | .ok v => (conform type v).mapError Fault.reported

/-- The run from the fetched series on. -/
def finish (tree : Formula) (type : OutputForm) (context : Context) (calls : List StoreCall)
    (events : List RunEvent) (harvest : Harvest) : Run :=
  let counts := harvest.series.map fun s => s.2.length
  match harvest.failure with
  | some (slug, fault) => stopped calls events counts .fetching "fetching" slug fault
  | none =>
    match conclude tree type context harvest.series with
    | .ok (v, asOf) =>
      ⟨calls, events, counts, .succeeded v asOf tree.dependencies⟩
    | .error (.reported e) => failing calls events counts .evaluating e
    | .error fault => ⟨calls, events, counts, .escaped (.evaluation fault)⟩

/-- The run of a formula that has been read. -/
def ofTree (store : SeriesStore) (type : OutputForm) (context : Context) (begun : RunEvent)
    (tree : Formula) : Run :=
  let survey := store.survey tree.dependencies
  match survey.outcome with
  | .error (slug, fault) =>
    stopped survey.calls [begun] [] .surveying "checking" slug fault
  | .ok [] =>
    let harvest := store.harvest context.startDate context.endDate tree.dependencies
    finish tree type context (survey.calls ++ harvest.calls)
      ([begun, .resolved tree.dependencies] ++
        harvest.series.map fun s => .fetched s.1 s.2.length) harvest
  | .ok missing =>
    failing survey.calls [begun] [] .surveying { cause := .unknownIndicators missing }

/-- Run a formula for a declared output, up to the value. -/
def ofFormula (store : SeriesStore) (type : OutputForm) (context : Context) (formula : String) :
    Run :=
  match Formula.read formula with
  | .error e => failing [] [.started formula] [] .reading (.ofRead e)
  | .ok tree => ofTree store type context (.started formula) tree

end Run

/-- What a run leaves behind. -/
structure Execution where
  /-- The run itself. -/
  run : Run
  /-- The result, unless the run broke off. -/
  result : Except Escape Outcome
  /-- The repository afterwards. -/
  repository : Repository

namespace Calculation

/-- A calculation after a run that succeeded. -/
def updated (c : Calculation) (now : Stamp) (dependencies : List String) (lastResult : Document) :
    Calculation :=
  { c with dependencies, lastRun := some now, lastResult }

/-- Run a calculation. The value is rendered before anything is kept. The calculation is kept
afterwards if it has a number and is to be kept, and only then the success is told. -/
def execute (store : SeriesStore) (now : Stamp) (repository : Repository) (keep : Bool)
    (context : Context) (c : Calculation) : Execution :=
  let run := Run.ofFormula store c.outputForm context c.formula
  match run.ending with
  | .succeeded value asOf dependencies =>
    match Payload.ofValue c.outputForm context asOf value with
    | .error message =>
      ⟨{ run with ending := .escaped (.rendering message) }, .error (.rendering message),
        repository⟩
    | .ok lastResult =>
      let after := c.updated now dependencies lastResult
      ⟨{ run with events := run.events ++ [.succeeded value.shape] },
        .ok { calculation := after, state := .succeeded, value := some value, asOf },
        if keep then (repository.save? after).getD repository else repository⟩
  | .failed stage e =>
    ⟨run, .ok { calculation := c, state := .failed, error := some e, failedStage := some stage },
      repository⟩
  | .escaped e => ⟨run, .error e, repository⟩

end Calculation

end IndicatorFormula
