import IndicatorFormula.Proofs.Calculation.Steps

/-!
# The balance of the meters

Each way through a run counts what it has to: one beginning, one duration, and one success, one
error or nothing when something escapes. A success is counted only behind the write of the
repository. Over a row of runs the counts add up.
-/

namespace IndicatorFormula

open Steps Effect Calculation

/-- What is counted by an act. -/
@[simp]
def Act.meters : Act → Meters
  | started => { started := 1 }
  | observed points => { fetched := [points] }
  | failed code => { failed := [code] }
  | timed => { timed := 1 }
  | succeeded type => { succeeded := [type] }
  | delivered _ _ | saved _ => {}

/-- The points of a series that the store delivers. -/
@[simp]
def Act.delivered? : Act → Option Nat
  | delivered _ points => some points
  | _ => none

attribute [ext] Meters

namespace Meters

@[simp]
theorem started_append (a b : Meters) : (a ++ b).started = a.started + b.started := rfl

@[simp]
theorem timed_append (a b : Meters) : (a ++ b).timed = a.timed + b.timed := rfl

@[simp]
theorem succeeded_append (a b : Meters) : (a ++ b).succeeded = a.succeeded ++ b.succeeded := rfl

@[simp]
theorem failed_append (a b : Meters) : (a ++ b).failed = a.failed ++ b.failed := rfl

@[simp]
theorem fetched_append (a b : Meters) : (a ++ b).fetched = a.fetched ++ b.fetched := rfl

/-- What is counted by acts. -/
@[simp]
def ofActs : List Act → Meters
  | [] => {}
  | a :: rest => a.meters ++ ofActs rest

/-- What some acts count and others count together is the counts of all. -/
@[simp]
theorem ofActs_append (acts more : List Act) :
    ofActs (acts ++ more) = ofActs acts ++ ofActs more := by
  induction acts with
  | nil => simp [Meters.ext_iff]
  | cons a rest ih => simp [ih, Meters.ext_iff, Nat.add_assoc]

/-- Deliveries count the points of their series and nothing else. -/
@[simp]
theorem ofActs_deliveries (series : List (String × List (Observation Float))) :
    ofActs (deliveries series) = { fetched := series.map fun e => e.2.length } := by
  induction series with
  | nil => rfl
  | cons e rest ih => simp [ih, Meters.ext_iff]

end Meters

/-- Deliveries deliver the points of their series. -/
@[simp]
theorem delivered?_deliveries (series : List (String × List (Observation Float))) :
    (deliveries series).filterMap Act.delivered? = series.map fun e => e.2.length := by
  induction series with
  | nil => rfl
  | cons e rest ih => simp [List.filterMap_cons, ih]

/-- A calculation to be run, and what the run finds around it. -/
structure Request where
  /-- What the run finds around it. -/
  surroundings : Surroundings
  /-- The calculation. -/
  calculation : Calculation

namespace Request

/-- Series that the store delivers within the bounds of the context. -/
def Delivers (q : Request) (series : List (String × List (Observation Float))) : Prop :=
  ∀ e ∈ series, q.surroundings.store.fetch e.1 q.surroundings.context.startDate
    q.surroundings.context.endDate = .ok e.2

end Request

/-- What comes out of a run. -/
abbrev Result := Except Raised Outcome

/-- The ways in which a run can end once no more series are delivered: what comes out, the
repository it leaves, and its last acts in order. -/
inductive Closing (q : Request) (r : Repository) : Result → Repository → List Act → Prop
  /-- An error is counted, and then the duration. -/
  | failed (stage : Stage) (e : CalcError) :
    Closing q r (.ok (.ofFailure q.calculation stage e)) r [.failed e.code, .timed]
  /-- Something escapes: only the duration is counted. -/
  | escaped (e : Escape) : Closing q r (.error (.escaping e)) r [.timed]
  /-- The repository breaks off: no success is counted. -/
  | unwritten {save : Calculation → Repository → Except String Unit × Repository}
    (has : q.surroundings.save? = some save) {c : Calculation} {r' : Repository}
    {message : String} (breaks : save c r = (.error message, r')) :
    Closing q r (.error (.escaping (.saving message))) r' [.timed]
  /-- The repository has written, and then a success is counted. -/
  | written {save : Calculation → Repository → Except String Unit × Repository}
    (has : q.surroundings.save? = some save) {c : Calculation} {r' : Repository}
    (writes : save c r = (.ok (), r')) (own : c.id = q.calculation.id)
    (form : c.outputForm = q.calculation.outputForm) (value : Value) (asOf : Option Date) :
    Closing q r (.ok (.ofSuccess c value asOf)) r'
      [.timed, .saved c, .succeeded q.calculation.outputForm]
  /-- There is nothing to write, and a success is counted. -/
  | unkept (keepsNot : ¬q.surroundings.Keeps q.calculation) {c : Calculation}
    (form : c.outputForm = q.calculation.outputForm) (value : Value) (asOf : Option Date) :
    Closing q r (.ok (.ofSuccess c value asOf)) r
      [.timed, .succeeded q.calculation.outputForm]

/-- The ways through a run: it begins, counts what the store delivers, and ends. -/
inductive Course (q : Request) (r : Repository) : Result → Repository → List Act → Prop
  | mk {series : List (String × List (Observation Float))} (delivers : q.Delivers series)
    {x : Result} {r' : Repository} {last : List Act} (closing : Closing q r x r' last) :
    Course q r x r' (.started :: (deliveries series ++ last))

/-- When a value was found the run escapes, or it succeeds once everything is written. -/
theorem closing_concluding (q : Request) (l : Ledger) (value : Value) (asOf : Option Date)
    (dependencies : List String) :
    let p := on (concluding q.surroundings q.calculation value asOf dependencies) l
    ∃ acts, p.2.acts = l.acts ++ acts ∧
      Closing q l.repository p.1 p.2.repository (.timed :: acts) := by
  have hconcludes :=
    concludes_concluding q.surroundings q.calculation value asOf dependencies l
  generalize on (concluding q.surroundings q.calculation value asOf dependencies) l = p
    at hconcludes ⊢
  cases hconcludes with
  | @unrendered message _ => exact ⟨[], (List.append_nil _).symm, .escaped (.rendering message)⟩
  | @untimed message _ => exact ⟨[], (List.append_nil _).symm, .escaped (.clock message)⟩
  | unwritten has breaks => exact ⟨[], (List.append_nil _).symm, .unwritten has breaks⟩
  | written has render clock writes => exact ⟨_, rfl, .written has writes rfl rfl value asOf⟩
  | @unkept keepsNot now lastResult _ _ =>
    have form : (q.calculation.updated now dependencies lastResult).outputForm =
        q.calculation.outputForm := rfl
    exact ⟨_, rfl, .unkept keepsNot form value asOf⟩

/-- Every run takes one of the ways. -/
theorem course_executing (q : Request) (l : Ledger) :
    ∃ acts, (on (executing q.surroundings q.calculation) l).2.acts = l.acts ++ acts ∧
      Course q l.repository (on (executing q.surroundings q.calculation) l).1
        (on (executing q.surroundings q.calculation) l).2.repository acts := by
  obtain ⟨series, hdelivers, -, hexecuting⟩ := on_executing q.surroundings q.calculation
  rw [hexecuting l]
  split
  · next value asOf dependencies _ =>
    obtain ⟨acts, hacts, hclosing⟩ := closing_concluding q
      (l.record (.started :: (deliveries series ++ [.timed]))) value asOf dependencies
    exact ⟨_, by simpa using hacts, .mk hdelivers hclosing⟩
  · exact ⟨_, rfl, .mk hdelivers (.failed _ _)⟩
  · exact ⟨_, rfl, .mk hdelivers (.escaped _)⟩

namespace Result

/-- The type of output of a calculation that succeeded. -/
@[simp]
def succeeded? : Result → Option OutputForm
  | .ok o => if o.state = .succeeded then some o.calculation.outputForm else none
  | .error _ => none

/-- The code of the error of a calculation that failed. -/
@[simp]
def failed? : Result → Option ErrorCode
  | .ok o => if o.state = .failed then o.error.map CalcError.code else none
  | .error _ => none

/-- Whether something escaped. -/
@[simp]
def escaped : Result → Bool
  | .ok _ => false
  | .error _ => true

end Result

/-- What is counted in some runs, and what it is the count of. -/
structure Balanced (m : Meters) (runs : Nat) (results : List Result) (acts : List Act) : Prop where
  /-- Every run is counted as begun. -/
  started : m.started = runs
  /-- Every duration is taken. -/
  timed : m.timed = runs
  /-- Every run ends in one way. -/
  ends : m.started = m.succeeded.length + m.failed.length + results.countP Result.escaped
  /-- Every success is counted under its type of output. -/
  succeeded : m.succeeded = results.filterMap Result.succeeded?
  /-- Every error is counted under its code. -/
  failed : m.failed = results.filterMap Result.failed?
  /-- The points of every series that was delivered are counted. -/
  fetched : m.fetched = acts.filterMap Act.delivered?

/-- The counts of some runs and of others balance together. -/
theorem Balanced.append {m m' : Meters} {runs runs' : Nat} {results results' : List Result}
    {acts acts' : List Act} (h : Balanced m runs results acts)
    (h' : Balanced m' runs' results' acts') :
    Balanced (m ++ m') (runs + runs') (results ++ results') (acts ++ acts') where
  started := by rw [Meters.started_append, h.started, h'.started]
  timed := by rw [Meters.timed_append, h.timed, h'.timed]
  ends := by
    have hends := h.ends
    have hends' := h'.ends
    simp only [Meters.started_append, Meters.succeeded_append, Meters.failed_append,
      List.length_append, List.countP_append]
    omega
  succeeded := by
    rw [Meters.succeeded_append, h.succeeded, h'.succeeded, List.filterMap_append]
  failed := by rw [Meters.failed_append, h.failed, h'.failed, List.filterMap_append]
  fetched := by rw [Meters.fetched_append, h.fetched, h'.fetched, List.filterMap_append]

section Course

variable {q : Request} {r r' : Repository} {x : Result} {acts : List Act}

/-- Whichever way a run takes, its counts are those of what it came to. -/
theorem Course.balanced (h : Course q r x r' acts) : Balanced (.ofActs acts) 1 [x] acts := by
  obtain ⟨delivers, closing⟩ := h
  cases closing with
  | failed stage e => constructor <;> simp [Outcome.ofFailure, List.filterMap_cons]
  | escaped e => constructor <;> simp [List.filterMap_cons]
  | unwritten has breaks => constructor <;> simp [List.filterMap_cons]
  | written has writes own form value asOf =>
    constructor <;> simp [Outcome.ofSuccess, form, List.filterMap_cons]
  | unkept keepsNot form value asOf =>
    constructor <;> simp [Outcome.ofSuccess, form, List.filterMap_cons]

/-- Every way through a run begins with its beginning. -/
theorem Course.exists_started (h : Course q r x r' acts) : ∃ rest, acts = .started :: rest := by
  obtain ⟨delivers, closing⟩ := h
  exact ⟨_, rfl⟩

end Course

/-- If the second of two acts counts a success then the first is the write of a calculation. -/
def FollowsWrite (a b : Act) : Prop :=
  ∀ type, b = .succeeded type → ∃ c, a = .saved c ∧ c.outputForm = type

/-- Deliveries come in no success, so what holds of the last acts holds behind them. -/
theorem isChain_deliveries (a : Act) (series : List (String × List (Observation Float)))
    {last : List Act} (h : ∀ a : Act, (a :: last).IsChain FollowsWrite) :
    (a :: (deliveries series ++ last)).IsChain FollowsWrite := by
  induction series generalizing a with
  | nil => exact h a
  | cons e rest ih =>
    rw [deliveries_cons, List.cons_append, List.cons_append]
    exact List.isChain_cons_cons.mpr ⟨nofun, List.isChain_cons_cons.mpr ⟨nofun, ih _⟩⟩

/-- However a run ends that keeps its calculation, a success stands behind its write. -/
theorem Closing.isChain {q : Request} {r r' : Repository} {x : Result} {last : List Act}
    (h : Closing q r x r' last) (hkeeps : q.surroundings.Keeps q.calculation) (a : Act) :
    (a :: last).IsChain FollowsWrite := by
  cases h with
  | failed stage e => simp [FollowsWrite]
  | escaped e => simp [FollowsWrite]
  | unwritten has breaks => simp [FollowsWrite]
  | written has writes own form value asOf => simp [FollowsWrite, form]
  | unkept keepsNot form value asOf => exact absurd hkeeps keepsNot

/-- A run that keeps its calculation counts a success only behind the write. -/
theorem Course.isChain {q : Request} {r r' : Repository} {x : Result} {acts : List Act}
    (h : Course q r x r' acts) (hkeeps : q.surroundings.Keeps q.calculation) :
    acts.IsChain FollowsWrite := by
  obtain ⟨delivers, closing⟩ := h
  exact isChain_deliveries _ _ (closing.isChain hkeeps)

/-- The ways through several runs, one after another. -/
inductive Courses : List Request → Repository → List Result → Repository → List Act → Prop
  | nil (r : Repository) : Courses [] r [] r []
  | cons {q : Request} {rest : List Request} {r r' r'' : Repository} {x : Result}
    {xs : List Result} {acts more : List Act} (first : Course q r x r' acts)
    (others : Courses rest r' xs r'' more) : Courses (q :: rest) r (x :: xs) r'' (acts ++ more)

/-- Run calculations one after another. What escapes from one does not keep the next from
running. -/
def executeAll : List Request → Ledger → List Result × Ledger
  | [], l => ([], l)
  | q :: rest, l =>
    let (x, l') := on (executing q.surroundings q.calculation) l
    let (xs, l'') := executeAll rest l'
    (x :: xs, l'')

/-- A row of runs takes a row of ways. -/
theorem courses_executeAll (requests : List Request) (l : Ledger) :
    ∃ acts, (executeAll requests l).2.acts = l.acts ++ acts ∧
      Courses requests l.repository (executeAll requests l).1 (executeAll requests l).2.repository
        acts := by
  induction requests generalizing l with
  | nil => exact ⟨[], (List.append_nil _).symm, .nil _⟩
  | cons q rest ih =>
    obtain ⟨acts, hacts, hcourse⟩ := course_executing q l
    obtain ⟨more, hmore, hcourses⟩ := ih (on (executing q.surroundings q.calculation) l).2
    refine ⟨acts ++ more, ?_, .cons hcourse hcourses⟩
    rw [← List.append_assoc, ← hacts]
    exact hmore

/-- Whichever ways the runs of a row take, their counts balance. -/
theorem Courses.balanced {requests : List Request} {r r' : Repository} {results : List Result}
    {acts : List Act} (h : Courses requests r results r' acts) :
    Balanced (.ofActs acts) requests.length results acts := by
  induction h with
  | nil r => constructor <;> rfl
  | @cons q rest r r' r'' x xs acts more first others ih =>
    rw [Meters.ofActs_append, List.length_cons, Nat.add_comm]
    exact first.balanced.append ih

/-- In a row of runs that keep their calculations every success stands behind its write. -/
theorem Courses.isChain {requests : List Request} {r r' : Repository} {results : List Result}
    {acts : List Act} (h : Courses requests r results r' acts)
    (hkeeps : ∀ q ∈ requests, q.surroundings.Keeps q.calculation) :
    acts.IsChain FollowsWrite ∧ ∀ b ∈ acts.head?, b = .started := by
  induction h with
  | nil r => exact ⟨.nil, nofun⟩
  | @cons q rest r r' r'' x xs acts more first others ih =>
    obtain ⟨hq, hrest⟩ := List.forall_mem_cons.mp hkeeps
    obtain ⟨hmore, hhead⟩ := ih hrest
    refine ⟨(first.isChain hq).append hmore fun a _ b hb => ?_, ?_⟩
    · rw [hhead b hb]
      exact nofun
    · obtain ⟨others, rfl⟩ := first.exists_started
      intro b hb
      simpa [eq_comm] using hb

/-- The counts of all kinds add up to the length of the list. -/
theorem sum_countP {κ : Type} [DecidableEq κ] {all : List κ} (hall : all.Nodup) {xs : List κ}
    (hmem : ∀ x ∈ xs, x ∈ all) : (all.map fun k => xs.countP (· = k)).sum = xs.length := by
  have hsum := Multiset.sum_count_eq_card (s := all.toFinset) (m := (xs : Multiset κ))
    (by simpa using hmem)
  rw [List.sum_toFinset _ hall] at hsum
  simpa [List.count_eq_countP, beq_eq_decide] using hsum

theorem mem_types (type : OutputForm) : type ∈ [OutputForm.single, .series] := by
  cases type <;> decide

theorem mem_codes (code : ErrorCode) : code ∈ ErrorCode.all := by
  cases code <;> decide

/-- Surroundings with a repository in memory, if calculations are to be kept, in which nothing
but the store breaks off. -/
def Surroundings.plain (store : SeriesStore) (now : Stamp) (keep : Bool) (context : Context) :
    Surroundings where
  store
  context
  render type asOf value := Payload.ofValue type context asOf value
  clock := .ok now
  save? := if keep then
      some fun c r => match r.save? c with
        | some r' => (.ok (), r')
        | none => (.error saveNeedsId, r)
    else none

section Plain

variable (store : SeriesStore) (now : Stamp) (keep : Bool) (context : Context) (c : Calculation)
  (l : Ledger)

@[simp]
theorem plain_store : (Surroundings.plain store now keep context).store = store := rfl

@[simp]
theorem plain_context : (Surroundings.plain store now keep context).context = context := rfl

/-- A calculation is kept in steps as it is in one go. -/
theorem on_keeping_plain :
    ∃ acts, on (Steps.keeping (.plain store now keep context) c) l =
        (.ok (), ⟨l.acts ++ acts, l.repository.keeping keep c⟩) ∧ Meters.ofActs acts = {} := by
  cases keep with
  | false => exact ⟨[], by simp [Steps.keeping, Surroundings.plain, Repository.keeping], rfl⟩
  | true =>
    cases hid : c.id with
    | none =>
      refine ⟨[], ?_, rfl⟩
      rw [Repository.keeping_of_no_id true hid]
      simp [Steps.keeping, hid]
    | some id =>
      refine ⟨[.saved c], ?_, rfl⟩
      have hsave : l.repository.save? c = some (l.repository.replaced id c) := by
        rw [Repository.save?, hid]
        rfl
      have hkeeping : Steps.keeping (.plain store now true context) c = saving
          (fun c r => match r.save? c with
            | some r' => (.ok (), r')
            | none => (.error saveNeedsId, r)) c := by
        simp [Steps.keeping, Surroundings.plain, hid]
      rw [hkeeping, Repository.keeping_eq_replaced hid]
      exact on_saving_ok (by simp [hsave])

/-- What was found is concluded in steps as it is in one go. -/
theorem on_concluding_plain {value : Value} {asOf : Option Date} {lastResult : Document}
    (hrendered : Payload.ofValue c.outputForm context asOf value = .ok lastResult)
    (dependencies : List String) :
    let after := c.updated now dependencies lastResult
    ∃ acts, on (concluding (.plain store now keep context) c value asOf dependencies) l =
        (.ok (.ofSuccess after value asOf), ⟨l.acts ++ acts, l.repository.keeping keep after⟩) ∧
      Meters.ofActs acts = { succeeded := [c.outputForm] } := by
  intro after
  obtain ⟨acts, hkeeping, hcounts⟩ := on_keeping_plain store now keep context after l
  refine ⟨acts ++ [.succeeded c.outputForm], ?_, by simp [hcounts, Meters.ext_iff]⟩
  have hconcluding : concluding (.plain store now keep context) c value asOf dependencies =
      (do
        Steps.keeping (.plain store now keep context) after
        act (.succeeded c.outputForm)
        return .ofSuccess after value asOf) := by
    simp only [concluding, Surroundings.plain, hrendered]
    rfl
  rw [hconcluding, on_bind, hkeeping]
  simp [Ledger.record]

/-- Where nothing around it breaks off a run in steps is the run in one go, and counts what is
counted of that. -/
theorem on_executing_plain :
    let execution := c.execute store now l.repository keep context
    ∃ acts, on (executing (.plain store now keep context) c) l =
        (execution.result.mapError Raised.escaping,
          ⟨l.acts ++ acts, execution.repository⟩) ∧
      Meters.ofActs acts = Meters.ofRun c.outputForm execution.run := by
  intro execution
  obtain ⟨series, -, hcounts, hexecuting⟩ := on_executing (.plain store now keep context) c
  simp only [plain_store, plain_context] at hcounts hexecuting
  have hl := hexecuting l
  let run := Run.ofFormula store c.outputForm context c.formula
  cases hending : (Run.ofFormula store c.outputForm context c.formula).ending with
  | failed stage e =>
    have hresult : execution = ⟨run, .ok (.ofFailure c stage e), l.repository⟩ := by
      simp only [execution, execute, hending, Outcome.ofFailure, run]
    refine ⟨.started :: (deliveries series ++ [.failed e.code, .timed]), ?_, ?_⟩
    · rw [hl, hending, hresult]
      rfl
    · simp [hresult, run, Meters.ofRun, hending, hcounts, Meters.ext_iff]
  | escaped e =>
    have hresult : execution = ⟨run, .error e, l.repository⟩ := by
      simp only [execution, execute, hending, run]
    refine ⟨.started :: (deliveries series ++ [.timed]), ?_, ?_⟩
    · rw [hl, hending, hresult]
      rfl
    · simp [hresult, run, Meters.ofRun, hending, hcounts, Meters.ext_iff]
  | succeeded value asOf dependencies =>
    cases hrendered : Payload.ofValue c.outputForm context asOf value with
    | error message =>
      have hresult : execution = ⟨{ run with ending := .escaped (.rendering message) },
          .error (.rendering message), l.repository⟩ := by
        simp only [execution, execute, hending, hrendered, run]
      refine ⟨.started :: (deliveries series ++ [.timed]), ?_, ?_⟩
      · rw [hl, hending, hresult]
        simp [concluding, Surroundings.plain, hrendered, Except.mapError, Ledger.record]
      · simp [hresult, run, Meters.ofRun, hcounts, Meters.ext_iff]
    | ok lastResult =>
      let after := c.updated now dependencies lastResult
      have hresult : execution = ⟨{ run with events := run.events ++ [.succeeded value.shape] },
          .ok (.ofSuccess after value asOf), l.repository.keeping keep after⟩ := by
        simp only [execution, execute, hending, hrendered, run]
        rfl
      obtain ⟨acts, hconcluding, hsucceeded⟩ := on_concluding_plain store now keep context c
        (l.record (.started :: (deliveries series ++ [.timed]))) hrendered dependencies
      refine ⟨.started :: (deliveries series ++ [.timed]) ++ acts, ?_, ?_⟩
      · rw [hl, hending, hresult]
        simpa [after, Except.mapError] using hconcluding
      · simp [hresult, run, Meters.ofRun, hending, hcounts, hsucceeded, Meters.ext_iff]

end Plain

/-- The meters balance. Over any row of runs, whatever their stores, renderings, clocks and
repositories do, the beginnings and the durations that are counted are the runs; the runs are the
successes of all types of output, the errors of all codes, and what escaped; successes and errors
are those that came out, each under its own type or code, and the points of every series that the
store delivered are counted, also where the run fails later. Each run takes one of the ways
through a run, and if all of them keep their calculations then every success is counted right
behind a write. And where nothing around it breaks off a run in steps is a run in one go. -/
theorem meters_balance (requests : List Request) (r : Repository) :
    let results := (executeAll requests ⟨[], r⟩).1
    let l := (executeAll requests ⟨[], r⟩).2
    let m := Meters.ofActs l.acts
    m.started = requests.length ∧ m.timed = requests.length ∧
      m.started = ([OutputForm.single, .series].map fun t => m.succeeded.countP (· = t)).sum +
        (ErrorCode.all.map fun k => m.failed.countP (· = k)).sum +
        results.countP Result.escaped ∧
      m.succeeded = results.filterMap Result.succeeded? ∧
      m.failed = results.filterMap Result.failed? ∧
      m.fetched = l.acts.filterMap Act.delivered? ∧
      Courses requests r results l.repository l.acts ∧
      ((∀ q ∈ requests, q.surroundings.Keeps q.calculation) → l.acts.IsChain FollowsWrite) ∧
      ∀ store now keep context c l,
        let execution := c.execute store now l.repository keep context
        ∃ acts, on (executing (.plain store now keep context) c) l =
            (execution.result.mapError Raised.escaping,
              ⟨l.acts ++ acts, execution.repository⟩) ∧
          Meters.ofActs acts = Meters.ofRun c.outputForm execution.run := by
  intro results l m
  obtain ⟨acts, hacts, hcourses⟩ := courses_executeAll requests ⟨[], r⟩
  obtain rfl : l.acts = acts := hacts
  have hbalanced := hcourses.balanced
  refine ⟨hbalanced.started, hbalanced.timed, ?_, hbalanced.succeeded, hbalanced.failed,
    hbalanced.fetched, hcourses, fun hkeeps => (hcourses.isChain hkeeps).1, ?_⟩
  · rw [sum_countP (by decide) fun t _ => mem_types t,
      sum_countP (by decide) fun k _ => mem_codes k]
    exact hbalanced.ends
  · exact on_executing_plain

/-- A calculation that is kept. -/
def kept : Calculation :=
  { id := some 1, name := "X", slug := "x", formula := "x", outputForm := .series,
    description := "", dependencies := ["x"], lastRun := none, lastResult := .null }

/-- Where nothing breaks off. -/
def calm : Surroundings := .plain emptySeries ⟨⟨0⟩, 43200, 0, none⟩ true {}

/-- A run that succeeds, one whose formula cannot be read, and one for which the clock stands
still. -/
def threeRequests : List Request :=
  [⟨calm, kept⟩, ⟨calm, { kept with formula := "x(" }⟩,
    ⟨{ calm with clock := .error "no time" }, kept⟩]

/-- Three runs: one success is counted, behind its write, and one error; the third escapes. -/
theorem meters_balance_three :
    let l := (executeAll threeRequests ⟨[], {}⟩).2
    let m := Meters.ofActs l.acts
    m.started = 3 ∧ m.timed = 3 ∧ m.succeeded = [.series] ∧ m.failed = [.parse] ∧
      m.fetched = [0, 0] ∧ l.acts.IsChain FollowsWrite := by
  intro l m
  obtain ⟨hstarted, htimed, -, hsucceeded, hfailed, hfetched, -, hwritten, -⟩ :=
    meters_balance threeRequests {}
  have hresults : (executeAll threeRequests ⟨[], {}⟩).1.filterMap Result.succeeded? = [.series] ∧
      (executeAll threeRequests ⟨[], {}⟩).1.filterMap Result.failed? = [.parse] := ⟨rfl, rfl⟩
  have hdelivered : l.acts.filterMap Act.delivered? = [0, 0] := rfl
  have hkeeps : ∀ q ∈ threeRequests, q.surroundings.Keeps q.calculation := by
    simp [threeRequests, calm, kept, Surroundings.plain, Surroundings.Keeps]
  exact ⟨hstarted, htimed, hsucceeded.trans hresults.1, hfailed.trans hresults.2,
    hfetched.trans hdelivered, hwritten hkeeps⟩

end IndicatorFormula
