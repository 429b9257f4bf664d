import IndicatorFormula.Calculation.Repository
import IndicatorFormula.Proofs.Calculation.Protocol
import IndicatorFormula.Proofs.Table

/-!
# What a run leaves behind

A run ends in one of three ways, and only one of them touches the repository: a run that
succeeds replaces the calculation that it ran, and that entry alone. What is kept then is the
calculation as it was but for what the run found out. A run that fails gives back the
calculation as it came, with an error that can be shown.
-/

namespace IndicatorFormula

/-- The outcome of a run that succeeded. -/
def Outcome.ofSuccess (c : Calculation) (value : Value) (asOf : Option Date) : Outcome :=
  { calculation := c, state := .succeeded, value := some value, asOf }

namespace Repository

/-- The repository with a calculation under a number, in the place of what was there. -/
def replaced (r : Repository) (id : Int) (c : Calculation) : Repository :=
  { r with entries := r.entries.put id c }

/-- The repository after a run that succeeded: only what has a number can be kept. -/
def keeping (r : Repository) (keep : Bool) (c : Calculation) : Repository :=
  if keep then (r.save? c).getD r else r

variable {r : Repository} {id : Int} {c : Calculation}

/-- Saving a calculation with a number puts it in the place of that number. -/
theorem getD_save? (hid : c.id = some id) : (r.save? c).getD r = r.replaced id c := by
  rw [save?, hid]
  rfl

/-- A replacement is found under its number, and the others under theirs. -/
theorem get?_replaced (k : Int) :
    (r.replaced id c).get? k = if k = id then some c else r.get? k :=
  Table.find?_put id k c r.entries

/-- A replacement touches nothing but its own entry. -/
theorem delete_replaced : (r.replaced id c).delete id = r.delete id := by
  simp only [delete, replaced, Table.erase_put]

theorem keeping_eq_replaced (hid : c.id = some id) : r.keeping true c = r.replaced id c := by
  simp only [keeping, if_true, getD_save? hid]

theorem keeping_of_no_id (keep : Bool) (hid : c.id = none) : r.keeping keep c = r := by
  cases keep <;> simp [keeping, save?, hid]

/-- Keeping a calculation changes the entry of its number and nothing else. -/
theorem keeping_frame (r : Repository) (keep : Bool) (c : Calculation) :
    match keep, c.id with
    | true, some id => (r.keeping keep c).get? id = some c ∧
      (r.keeping keep c).delete id = r.delete id
    | _, _ => r.keeping keep c = r := by
  cases keep with
  | false => simp [keeping]
  | true =>
    cases hid : c.id with
    | none => exact keeping_of_no_id true hid
    | some id =>
      simp only [keeping_eq_replaced hid, get?_replaced, if_true]
      exact ⟨trivial, delete_replaced⟩

end Repository

namespace Run

variable {store : SeriesStore} {type : OutputForm} {context : Context} {tree : Formula}
  {value : Value} {asOf : Option Date} {dependencies : List String}

/-- A failure of the store ends a run without a value. -/
theorem stopped_not_succeeded {calls : List StoreCall} {events : List RunEvent}
    {counts : List Nat} {stage : Stage} {activity slug : String} {fault : StoreFault} :
    (stopped calls events counts stage activity slug fault).ending ≠
      .succeeded value asOf dependencies := by
  unfold stopped
  split <;> simp [failing]

/-- From the harvest on a run that succeeds has used the indicators of its formula. -/
theorem finish_dependencies {calls : List StoreCall} {events : List RunEvent} {harvest : Harvest}
    (h : (finish tree type context calls events harvest).ending =
      .succeeded value asOf dependencies) : dependencies = tree.dependencies := by
  unfold finish at h
  split at h
  · exact absurd h stopped_not_succeeded
  · split at h
    · cases h
      rfl
    · cases h
    · cases h

/-- From the formula on a run that succeeds has used the indicators of that. -/
theorem ofTree_dependencies {begun : RunEvent}
    (h : (ofTree store type context begun tree).ending = .succeeded value asOf dependencies) :
    dependencies = tree.dependencies := by
  simp only [ofTree] at h
  split at h
  · exact absurd h stopped_not_succeeded
  · exact finish_dependencies h
  · cases h

/-- A failure of the store is one of the stage in which it occurs. -/
theorem stopped_stage {calls : List StoreCall} {events : List RunEvent} {counts : List Nat}
    {stage stage' : Stage} {activity slug : String} {fault : StoreFault} {e : CalcError}
    (h : (stopped calls events counts stage activity slug fault).ending = .failed stage' e) :
    stage' = stage := by
  unfold stopped at h
  split at h
  · cases h
    rfl
  · cases h

/-- A formula that was read fails in a later stage. -/
theorem ofTree_stage {begun : RunEvent} {stage : Stage} {e : CalcError}
    (h : (ofTree store type context begun tree).ending = .failed stage e) : stage ≠ .reading := by
  simp only [ofTree] at h
  split at h
  · rw [stopped_stage h]
    decide
  · unfold finish at h
    split at h
    · rw [stopped_stage h]
      decide
    · split at h <;> cases h
      decide
  · cases h
    decide

/-- A run fails in its first stage only if the formula cannot be read. -/
theorem exists_read_error {formula : String} {e : CalcError}
    (h : (ofFormula store type context formula).ending = .failed .reading e) :
    ∃ e, Formula.read formula = .error e := by
  unfold ofFormula at h
  split at h
  · next e he => exact ⟨e, he⟩
  · exact absurd rfl (ofTree_stage h)

/-- A run that succeeds has read its formula and used the indicators of that. -/
theorem read_of_succeeded {formula : String}
    (h : (ofFormula store type context formula).ending = .succeeded value asOf dependencies) :
    ∃ tree, Formula.read formula = .ok tree ∧ dependencies = tree.dependencies := by
  unfold ofFormula at h
  split at h
  · cases h
  · next tree htree => exact ⟨tree, htree, ofTree_dependencies h⟩

end Run

/-- The ways in which a run of a calculation can end, each with what it leaves behind. -/
inductive Execution.Ends (now : Stamp) (before : Repository) (keep : Bool) (context : Context)
    (c : Calculation) : Except Escape Outcome → Repository → Prop
  /-- Without a result. -/
  | escaped (e : Escape) : Ends now before keep context c (.error e) before
  /-- With an error in some stage. -/
  | failed (stage : Stage) (e : CalcError)
    (unread : stage = .reading → ∃ e, Formula.read c.formula = .error e) :
    Ends now before keep context c (.ok (.ofFailure c stage e)) before
  /-- With a value that is rendered. -/
  | succeeded (tree : Formula) (value : Value) (asOf : Option Date) {lastResult : Document}
    (read : Formula.read c.formula = .ok tree)
    (renders : Payload.ofValue c.outputForm context asOf value = .ok lastResult) :
    Ends now before keep context c
      (.ok (.ofSuccess (c.updated now tree.dependencies lastResult) value asOf))
      (before.keeping keep (c.updated now tree.dependencies lastResult))

/-- A run of a calculation with a number replaces that calculation or changes nothing. -/
theorem Execution.Ends.kept_or_replaced {now : Stamp} {before after : Repository}
    {context : Context} {c : Calculation} {id : Int} {result : Except Escape Outcome}
    (h : Ends now before true context c result after) (hid : c.id = some id) :
    after = before ∨ ∃ tree lastResult, Formula.read c.formula = .ok tree ∧
      after = before.replaced id (c.updated now tree.dependencies lastResult) := by
  cases h with
  | escaped e => exact .inl rfl
  | failed stage e unread => exact .inl rfl
  | succeeded tree value asOf read renders =>
    exact .inr ⟨tree, _, read, Repository.keeping_eq_replaced hid⟩

/-- A run fails in its first stage only if the formula cannot be read. -/
theorem Execution.Ends.unread_of_reading {now : Stamp} {before after : Repository} {keep : Bool}
    {context : Context} {c : Calculation} {o : Outcome}
    (h : Ends now before keep context c (.ok o) after) (hstage : o.failedStage = some .reading) :
    ∃ e, Formula.read c.formula = .error e := by
  cases h with
  | failed stage e unread => exact unread (Option.some.inj hstage)
  | succeeded tree value asOf read renders => cases hstage

namespace Calculation

/-- Every run ends in one of the ways. -/
theorem execute_ends (store : SeriesStore) (now : Stamp) (repository : Repository) (keep : Bool)
    (context : Context) (c : Calculation) :
    Execution.Ends now repository keep context c
      (c.execute store now repository keep context).result
      (c.execute store now repository keep context).repository := by
  simp only [execute]
  cases hending : (Run.ofFormula store c.outputForm context c.formula).ending with
  | escaped e => exact .escaped e
  | failed stage e =>
    refine .failed stage e ?_
    rintro rfl
    exact Run.exists_read_error hending
  | succeeded value asOf dependencies =>
    obtain ⟨tree, hread, rfl⟩ := Run.read_of_succeeded hending
    dsimp only
    cases hrendered : Payload.ofValue c.outputForm context asOf value with
    | error message => exact .escaped (.rendering message)
    | ok lastResult => exact .succeeded tree value asOf hread hrendered

/-- The error of a run that failed can be shown, whatever the context. -/
theorem payload_of_failure (c : Calculation) (stage : Stage) (e : CalcError) :
    ∃ payload, (ErrorReport.ofError e).payload? = .ok payload ∧
      ∀ context, (Outcome.ofFailure c stage e).payload context = .ok payload := by
  refine ⟨(ErrorReport.ofError e).payload, ?_, fun context => rfl⟩
  simp [ErrorReport.payload?, ErrorReport.faults_ofError]

end Calculation

end IndicatorFormula
