import IndicatorFormula.Calculation.Meters
import IndicatorFormula.Proofs.Calculation.Execution
import IndicatorFormula.Proofs.Calculation.Ending
import IndicatorFormula.Proofs.Effect

/-!
# Runs step by step

A run in steps acts one after another: it counts, it calls the store, it has the repository write.
What it has done stays done, also if it breaks off afterwards. The rendering of the value, the
clock and the repository are as they are found, and each of them may break off. Where they do not,
the steps come down to a run in one go.
-/

namespace IndicatorFormula

/-- What a run does that is counted, or that the counts are about. -/
inductive Act where
  /-- The run is counted as begun. -/
  | started
  /-- The store has delivered the series of an indicator. -/
  | delivered (slug : String) (points : Nat)
  /-- The points of a series are counted. -/
  | observed (points : Nat)
  /-- An error is counted. -/
  | failed (code : ErrorCode)
  /-- The duration is taken. -/
  | timed
  /-- The repository has written a calculation. -/
  | saved (c : Calculation)
  /-- A success is counted. -/
  | succeeded (type : OutputForm)

/-- The acts so far, and the repository. -/
structure Ledger where
  /-- The acts, in order. -/
  acts : List Act
  /-- The calculations that are kept. -/
  repository : Repository

/-- What is raised in a step. -/
inductive Raised where
  /-- An error that is told to the user. -/
  | reported (stage : Stage) (e : CalcError)
  /-- Something that no step takes care of. -/
  | escaping (e : Escape)

/-- Steps of a run. -/
abbrev Steps (α : Type) := Effect Ledger Raised α

/-- What a run finds around it. A repository that breaks off may have written or not. -/
structure Surroundings where
  /-- The store of series. -/
  store : SeriesStore
  /-- The context of the run. -/
  context : Context
  /-- How a value is rendered for a type of output, with the date of the point it stands for. -/
  render : OutputForm → Option Date → Value → Except String Document
  /-- The moment of the run. -/
  clock : Except String Stamp
  /-- How a calculation is written, if there is a repository. -/
  save? : Option (Calculation → Repository → Except String Unit × Repository)

/-- There are a repository and a number to keep a calculation under. -/
def Surroundings.Keeps (s : Surroundings) (c : Calculation) : Prop :=
  s.save?.isSome ∧ c.id.isSome

/-- A value in line with the declared output, the date of the point it stands for, and the
indicators it is made of. -/
abbrev Found := Value × Option Date × List String

namespace Steps

/-- Do something. -/
def act (a : Act) : Steps Unit := do
  let l ← getThe Ledger
  set { l with acts := l.acts ++ [a] }

/-- What is raised for a failure of the store. -/
def raised (stage : Stage) (activity slug : String) (fault : StoreFault) : Raised :=
  match fault.error? activity slug with
  | some e => .reported stage e
  | none => .escaping (.store fault)

/-- Read the formula. -/
def reading (formula : String) : Steps Formula :=
  match Formula.read formula with
  | .ok tree => return tree
  | .error e => throw (.reported .reading (.ofRead e))

/-- Ask the store for an indicator. -/
def asking (store : SeriesStore) (slug : String) : Steps Bool :=
  match store.isActive slug with
  | .ok active => return active
  | .error fault => throw (raised .surveying "checking" slug fault)

/-- Ask for indicators one after another: those that are not there. -/
def surveying (store : SeriesStore) : List String → Steps (List String)
  | [] => return []
  | slug :: rest => do
    let active ← asking store slug
    let missing ← surveying store rest
    return if active then missing else slug :: missing

/-- Have the store deliver a series. -/
def delivering (store : SeriesStore) (context : Context) (slug : String) :
    Steps (List (Observation Float)) :=
  match store.fetch slug context.startDate context.endDate with
  | .ok observations => do
    act (.delivered slug observations.length)
    return observations
  | .error fault => throw (raised .fetching "fetching" slug fault)

/-- Fetch series one after another, and count the points of each. -/
def fetching (store : SeriesStore) (context : Context) :
    List String → Steps (List (String × List (Observation Float)))
  | [] => return []
  | slug :: rest => do
    let observations ← delivering store context slug
    act (.observed observations.length)
    let others ← fetching store context rest
    return (slug, observations) :: others

/-- Evaluate and bring the value into line with the declared output. -/
def computing (tree : Formula) (type : OutputForm) (context : Context)
    (series : List (String × List (Observation Float))) : Steps (Value × Option Date) :=
  match Run.conclude tree type context series with
  | .ok result => return result
  | .error (.reported e) => throw (.reported .evaluating e)
  | .error fault => throw (.escaping (.evaluation fault))

/-- What may give an error: everything up to the value. -/
def attempting (s : Surroundings) (c : Calculation) : Steps Found := do
  let tree ← reading c.formula
  let missing ← surveying s.store tree.dependencies
  if missing ≠ [] then throw (.reported .surveying { cause := .unknownIndicators missing })
  let series ← fetching s.store s.context tree.dependencies
  let (value, asOf) ← computing tree c.outputForm s.context series
  return (value, asOf, tree.dependencies)

/-- Tell of an error. -/
def reporting (c : Calculation) : Raised → Steps (Except Outcome Found)
  | .reported stage e => do
    act (.failed e.code)
    return .error (.ofFailure c stage e)
  | .escaping e => throw (.escaping e)

/-- Take something that may break off. -/
def taking {α : Type} (escaped : String → Escape) : Except String α → Steps α
  | .ok a => return a
  | .error message => throw (.escaping (escaped message))

/-- Have the repository write a calculation. -/
def saving (save : Calculation → Repository → Except String Unit × Repository)
    (c : Calculation) : Steps Unit := do
  let l ← getThe Ledger
  let (result, repository) := save c l.repository
  set { l with repository }
  taking .saving result
  act (.saved c)

/-- Keep a calculation, if there is a repository and the calculation has a number. -/
def keeping (s : Surroundings) (c : Calculation) : Steps Unit :=
  match s.save?, c.id with
  | some save, some _ => saving save c
  | _, _ => return ()

/-- What follows when a value was found. -/
def concluding (s : Surroundings) (c : Calculation) (value : Value) (asOf : Option Date)
    (dependencies : List String) : Steps Outcome := do
  let lastResult ← taking .rendering (s.render c.outputForm asOf value)
  let now ← taking .clock s.clock
  let after := c.updated now dependencies lastResult
  keeping s after
  act (.succeeded c.outputForm)
  return .ofSuccess after value asOf

/-- The part of a run whose errors are told. The duration is taken in any case. -/
def trying (s : Surroundings) (c : Calculation) : Steps (Except Outcome Found) :=
  tryFinally (tryCatch (do return .ok (← attempting s c)) (reporting c)) (act .timed)

/-- Run a calculation. -/
def executing (s : Surroundings) (c : Calculation) : Steps Outcome := do
  act .started
  match ← trying s c with
  | .error outcome => return outcome
  | .ok (value, asOf, dependencies) => concluding s c value asOf dependencies

end Steps

/-- A ledger with more acts. -/
def Ledger.record (l : Ledger) (acts : List Act) : Ledger := { l with acts := l.acts ++ acts }

@[simp]
theorem Ledger.record_nil (l : Ledger) : l.record [] = l := by simp [record]

@[simp]
theorem Ledger.acts_record (l : Ledger) (acts : List Act) :
    (l.record acts).acts = l.acts ++ acts := rfl

@[simp]
theorem Ledger.repository_record (l : Ledger) (acts : List Act) :
    (l.record acts).repository = l.repository := rfl

@[simp]
theorem Ledger.record_record (l : Ledger) (acts more : List Act) :
    (l.record acts).record more = l.record (acts ++ more) := by simp [record]

/-- What a run has found when it ends. -/
def Ending.found : Ending → Except Raised Found
  | succeeded value asOf dependencies => .ok (value, asOf, dependencies)
  | failed stage e => .error (.reported stage e)
  | escaped e => .error (.escaping e)

/-- What the store and the run do when series are delivered. -/
def deliveries (series : List (String × List (Observation Float))) : List Act :=
  series.flatMap fun e => [.delivered e.1 e.2.length, .observed e.2.length]

@[simp]
theorem deliveries_nil : deliveries [] = [] := rfl

@[simp]
theorem deliveries_cons (e : String × List (Observation Float))
    (rest : List (String × List (Observation Float))) : deliveries (e :: rest) =
      .delivered e.1 e.2.length :: .observed e.2.length :: deliveries rest := rfl

namespace Steps

section Laws

open Effect

variable {l : Ledger} {store : SeriesStore} {context : Context}

@[simp]
theorem on_act (a : Act) : on (act a) l = (.ok (), l.record [a]) := rfl

/-- Asking in steps comes to a survey and leaves no trace. -/
theorem on_surveying (store : SeriesStore) (slugs : List String) : on (surveying store slugs) l =
    ((store.survey slugs).outcome.mapError fun f => raised .surveying "checking" f.1 f.2, l) := by
  induction slugs with
  | nil => rfl
  | cons slug rest ih =>
    cases hactive : store.isActive slug with
    | error fault => simp [surveying, asking, SeriesStore.survey, hactive, Except.mapError]
    | ok active =>
      cases hrest : (store.survey rest).outcome <;>
        simp [surveying, asking, SeriesStore.survey, hactive, ih, hrest, Except.mapError,
          Except.map]

/-- What comes out of a harvest. -/
def harvested (harvest : Harvest) : Except Raised (List (String × List (Observation Float))) :=
  match harvest.failure with
  | some (slug, fault) => .error (raised .fetching "fetching" slug fault)
  | none => .ok harvest.series

/-- Fetching in steps comes to a harvest, and every delivery is counted. -/
theorem on_fetching (slugs : List String) : on (fetching store context slugs) l =
    (harvested (store.harvest context.startDate context.endDate slugs),
      l.record (deliveries (store.harvest context.startDate context.endDate slugs).series)) := by
  induction slugs generalizing l with
  | nil => simp [fetching, SeriesStore.harvest, harvested]
  | cons slug rest ih =>
    cases hfetch : store.fetch slug context.startDate context.endDate with
    | error fault =>
      simp [fetching, delivering, SeriesStore.harvest, hfetch, harvested]
    | ok observations =>
      cases hrest : (store.harvest context.startDate context.endDate rest).failure <;>
        simp [fetching, delivering, SeriesStore.harvest, hfetch, harvested, ih, hrest]

/-- A failure of the store is raised as it is told of the run. -/
theorem found_stopped {calls : List StoreCall} {events : List RunEvent} {counts : List Nat}
    {stage : Stage} {activity slug : String} {fault : StoreFault} :
    (Run.stopped calls events counts stage activity slug fault).ending.found =
      .error (raised stage activity slug fault) := by
  unfold Run.stopped raised
  cases fault.error? activity slug <;> rfl

/-- A failure of the store adds no count. -/
theorem counts_stopped {calls : List StoreCall} {events : List RunEvent} {counts : List Nat}
    {stage : Stage} {activity slug : String} {fault : StoreFault} :
    (Run.stopped calls events counts stage activity slug fault).counts = counts := by
  unfold Run.stopped
  cases fault.error? activity slug <;> rfl

/-- From the harvest on, the steps come to what the run finds in one go. -/
theorem on_finishing {calls : List StoreCall} {events : List RunEvent} (tree : Formula)
    (type : OutputForm) (harvest : Harvest) :
    let run := Run.finish tree type context calls events harvest
    run.counts = harvest.series.map (fun e => e.2.length) ∧
      (match harvested harvest with
        | .ok series => on (do
            let (value, asOf) ← computing tree type context series
            return (value, asOf, tree.dependencies)) l
        | .error e => (.error e, l)) = (run.ending.found, l) := by
  cases hfailure : harvest.failure with
  | some failure =>
    simp [Run.finish, harvested, hfailure, found_stopped, counts_stopped]
  | none =>
    cases hconclude : Run.conclude tree type context harvest.series with
    | ok result => simp [Run.finish, harvested, hfailure, computing, hconclude, Ending.found]
    | error fault =>
      cases fault <;>
        simp [Run.finish, harvested, hfailure, computing, hconclude, Run.failing, Ending.found]

/-- What is tried comes to what the run finds in one go, and leaves the repository alone; every
series that the store delivers is counted. -/
theorem on_attempting (s : Surroundings) (c : Calculation) :
    let run := Run.ofFormula s.store c.outputForm s.context c.formula
    ∃ series : List (String × List (Observation Float)),
      (∀ e ∈ series, s.store.fetch e.1 s.context.startDate s.context.endDate = .ok e.2) ∧
      run.counts = series.map (fun e => e.2.length) ∧
      ∀ l, on (attempting s c) l = (run.ending.found, l.record (deliveries series)) := by
  intro run
  cases hread : Formula.read c.formula with
  | error e =>
    have hrun : run = Run.failing [] [.started c.formula] [] .reading (.ofRead e) := by
      simp only [run, Run.ofFormula, hread]
    refine ⟨[], List.forall_mem_nil _, by rw [hrun]; rfl, fun l => ?_⟩
    simp [attempting, reading, hread, hrun, Run.failing, Ending.found]
  | ok tree =>
    have hrun : run = Run.ofTree s.store c.outputForm s.context (.started c.formula) tree := by
      simp only [run, Run.ofFormula, hread]
    have hsurveying (l : Ledger) := on_surveying (l := l) s.store tree.dependencies
    cases hsurvey : (s.store.survey tree.dependencies).outcome with
    | error failure =>
      simp only [hsurvey, Except.mapError] at hsurveying
      refine ⟨[], List.forall_mem_nil _, ?_, fun l => ?_⟩
      · simp [hrun, Run.ofTree, hsurvey, counts_stopped]
      · simp [attempting, reading, hread, hsurveying, hrun, Run.ofTree, hsurvey, found_stopped]
    | ok missing =>
      simp only [hsurvey, Except.mapError] at hsurveying
      cases missing with
      | cons slug rest =>
        refine ⟨[], List.forall_mem_nil _, ?_, fun l => ?_⟩
        · simp [hrun, Run.ofTree, hsurvey, Run.failing]
        · simp [attempting, reading, hread, hsurveying, hrun, Run.ofTree, hsurvey, Run.failing,
            Ending.found]
      | nil =>
        let harvest := s.store.harvest s.context.startDate s.context.endDate tree.dependencies
        obtain ⟨calls, events, hfinish⟩ : ∃ calls events,
            run = Run.finish tree c.outputForm s.context calls events harvest := by
          simp only [hrun, Run.ofTree, hsurvey]
          exact ⟨_, _, rfl⟩
        rw [hfinish]
        refine ⟨harvest.series, fun e he => SeriesStore.fetch_of_mem_harvest he,
          (on_finishing (l := ⟨[], {}⟩) tree c.outputForm harvest).1, fun l => ?_⟩
        rw [← (on_finishing tree c.outputForm harvest).2]
        cases hharvested : harvested harvest <;>
          simp [attempting, reading, hread, hsurveying, on_fetching, harvest, hharvested]

/-- A run in steps ends as the run in one go, but what follows when a value was found may break
off. -/
theorem on_executing (s : Surroundings) (c : Calculation) :
    let run := Run.ofFormula s.store c.outputForm s.context c.formula
    ∃ series : List (String × List (Observation Float)),
      (∀ e ∈ series, s.store.fetch e.1 s.context.startDate s.context.endDate = .ok e.2) ∧
      run.counts = series.map (fun e => e.2.length) ∧
      ∀ l, on (executing s c) l =
        match run.ending with
        | .succeeded value asOf dependencies => on (concluding s c value asOf dependencies)
            (l.record (.started :: (deliveries series ++ [.timed])))
        | .failed stage e => (.ok (.ofFailure c stage e),
            l.record (.started :: (deliveries series ++ [.failed e.code, .timed])))
        | .escaped e => (.error (.escaping e),
            l.record (.started :: (deliveries series ++ [.timed]))) := by
  intro run
  obtain ⟨series, hfetched, hcounts, hattempting⟩ := on_attempting s c
  refine ⟨series, hfetched, hcounts, fun l => ?_⟩
  have hl : on (attempting s c) (l.record [.started]) = (run.ending.found, _) :=
    hattempting (l.record [.started])
  cases hending : run.ending <;> rw [hending] at hl <;>
    simp [executing, trying, hl, Ending.found, reporting]

@[simp]
theorem on_taking_ok {α : Type} (escaped : String → Escape) (a : α) :
    on (taking escaped (.ok a)) l = (.ok a, l) := rfl

@[simp]
theorem on_taking_error {α : Type} (escaped : String → Escape) (message : String) :
    on (taking escaped (.error message) : Steps α) l =
      (.error (.escaping (escaped message)), l) := rfl

theorem on_saving_ok {save : Calculation → Repository → Except String Unit × Repository}
    {c : Calculation} {r : Repository} (hsave : save c l.repository = (.ok (), r)) :
    on (saving save c) l = (.ok (), ⟨l.acts ++ [.saved c], r⟩) := by
  simp [saving, getThe, hsave, Ledger.record]

theorem on_saving_error {save : Calculation → Repository → Except String Unit × Repository}
    {c : Calculation} {r : Repository} {message : String}
    (hsave : save c l.repository = (.error message, r)) :
    on (saving save c) l = (.error (.escaping (.saving message)), ⟨l.acts, r⟩) := by
  simp [saving, getThe, hsave]

/-- A calculation with a number is written if there is a repository. -/
theorem keeping_of_keeps {s : Surroundings} {c : Calculation} (h : s.Keeps c) :
    ∃ save, s.save? = some save ∧ keeping s c = saving save c := by
  obtain ⟨save, hsave⟩ := Option.isSome_iff_exists.mp h.1
  obtain ⟨id, hid⟩ := Option.isSome_iff_exists.mp h.2
  refine ⟨save, hsave, ?_⟩
  unfold keeping
  rw [hsave, hid]

/-- Without a repository or a number nothing is written. -/
theorem keeping_of_not_keeps {s : Surroundings} {c : Calculation} (h : ¬s.Keeps c) :
    keeping s c = pure () := by
  unfold keeping
  split
  · next save id hsave hid => exact absurd ⟨by simp [hsave], by simp [hid]⟩ h
  · rfl

/-- The ways in which a value that was found is concluded, each with what comes out and the ledger
that is left. -/
inductive Concludes (s : Surroundings) (c : Calculation) (value : Value) (asOf : Option Date)
    (dependencies : List String) (l : Ledger) : Except Raised Outcome × Ledger → Prop
  /-- The value cannot be rendered. -/
  | unrendered {message : String} (render : s.render c.outputForm asOf value = .error message) :
    Concludes s c value asOf dependencies l (.error (.escaping (.rendering message)), l)
  /-- The clock breaks off. -/
  | untimed {message : String} (clock : s.clock = .error message) :
    Concludes s c value asOf dependencies l (.error (.escaping (.clock message)), l)
  /-- The repository breaks off. -/
  | unwritten {save : Calculation → Repository → Except String Unit × Repository}
    (has : s.save? = some save) {c' : Calculation} {r : Repository} {message : String}
    (breaks : save c' l.repository = (.error message, r)) :
    Concludes s c value asOf dependencies l
      (.error (.escaping (.saving message)), ⟨l.acts, r⟩)
  /-- The repository writes, and then the success is counted. -/
  | written {save : Calculation → Repository → Except String Unit × Repository}
    (has : s.save? = some save) {now : Stamp} {lastResult : Document} {r : Repository}
    (render : s.render c.outputForm asOf value = .ok lastResult) (clock : s.clock = .ok now)
    (writes : save (c.updated now dependencies lastResult) l.repository = (.ok (), r)) :
    Concludes s c value asOf dependencies l
      (.ok (.ofSuccess (c.updated now dependencies lastResult) value asOf),
        ⟨l.acts ++ [.saved (c.updated now dependencies lastResult), .succeeded c.outputForm], r⟩)
  /-- There is nothing to write, and the success is counted. -/
  | unkept (keepsNot : ¬s.Keeps c) {now : Stamp} {lastResult : Document}
    (render : s.render c.outputForm asOf value = .ok lastResult) (clock : s.clock = .ok now) :
    Concludes s c value asOf dependencies l
      (.ok (.ofSuccess (c.updated now dependencies lastResult) value asOf),
        l.record [.succeeded c.outputForm])

/-- A value that was found is concluded in one of the ways. -/
theorem concludes_concluding (s : Surroundings) (c : Calculation) (value : Value)
    (asOf : Option Date) (dependencies : List String) (l : Ledger) :
    Concludes s c value asOf dependencies l (on (concluding s c value asOf dependencies) l) := by
  unfold concluding
  cases hrender : s.render c.outputForm asOf value with
  | error message => simpa using .unrendered hrender
  | ok lastResult =>
    cases hclock : s.clock with
    | error message => simpa using .untimed hclock
    | ok now =>
      -- Only with a repository and a number is anything written.
      by_cases hkeeps : s.Keeps (c.updated now dependencies lastResult)
      · obtain ⟨save, hsave, hkeeping⟩ := keeping_of_keeps hkeeps
        rcases hwrite : save (c.updated now dependencies lastResult) l.repository with ⟨result, r⟩
        cases result with
        | error message => simpa [hkeeping, on_saving_error hwrite] using .unwritten hsave hwrite
        | ok =>
          simpa [hkeeping, on_saving_ok hwrite, Ledger.record] using
            .written hsave hrender hclock hwrite
      · have hkeepsNot : ¬s.Keeps c := hkeeps
        simpa [keeping_of_not_keeps hkeeps] using .unkept hkeepsNot hrender hclock

end Laws

end Steps

end IndicatorFormula
