import IndicatorFormula.Proofs.Calculation.Ending
import IndicatorFormula.Proofs.Evaluation.Agreement
import IndicatorFormula.Proofs.Evaluation.Texts

/-!
# What a check says of a run

The check of a formula and the run of a calculation ask one store in memory for the same
indicators. So a formula that passes has all its functions, arguments and indicators when it is
run, and one whose indicators are not all there fails for just those before anything is fetched.
The check does not look into the texts that two functions read for themselves: a text that they
cannot read passes, and it is the run that tells of it.
-/

namespace IndicatorFormula

open IndicatorFormula.Except

namespace Formula

variable {f : Function}

/-- A shape that a place does not take is a miscall. -/
theorem slotTakes_failsWith {index position : Nat} {k : Slot} {got : Shape} :
    FailsWith Fault.IsMiscall (slotTakes f index position k got) := by
  cases k <;> cases got
  case series.series | scalar.scalar => exact failsWith_ok
  all_goals exact failsWith_error rfl

/-- The check of an argument that is there fails with a miscall only. -/
theorem checkArgument_failsWith {index : Nat} {k : Slot} {arg : Formula} (harg : arg ≠ hole)
    (hshape : FailsWith Fault.IsMiscall arg.shape) :
    FailsWith Fault.IsMiscall (checkArgument f index k arg arg.shape) := by
  by_cases hk : k = .text
  · subst hk
    exact ((textArgument_failsWith harg).mono fun _ hmisfit => hmisfit.isMiscall).map
  · by_cases hliteral : ∀ content p, arg ≠ literal content p
    · rw [checkArgument_eq hk hliteral]
      exact hshape.bind fun _ _ => slotTakes_failsWith
    · simp only [ne_eq, not_forall, not_not] at hliteral
      obtain ⟨content, p, rfl⟩ := hliteral
      cases k with
      | text => exact absurd rfl hk
      | series | scalar => exact failsWith_error rfl

/-- The check of arguments that are there fails with a miscall only. -/
theorem checkArguments_failsWith {index : Nat} {ks : List Slot} {args : List Formula}
    (hargs : ∀ arg ∈ args, arg ≠ hole ∧ FailsWith Fault.IsMiscall arg.shape) :
    FailsWith Fault.IsMiscall (checkArguments f index ks args) := by
  induction ks generalizing index args with
  | nil => cases args <;> exact failsWith_ok
  | cons k ks ih =>
    cases args with
    | nil => exact failsWith_ok
    | cons arg args =>
      obtain ⟨⟨hhole, hshape⟩, hothers⟩ := List.forall_mem_cons.mp hargs
      rw [checkArguments_cons]
      exact (checkArgument_failsWith hhole hshape).bind fun _ _ => ih hothers

/-- The check refuses a formula that can be written only for a call that is wrong in itself. -/
theorem shape_failsWith {f : Formula} (hf : f.isCanonical = true) :
    FailsWith Fault.IsMiscall f.shape := by
  induction f using Formula.induction with
  | number x p => exact failsWith_ok
  | literal content p => exact failsWith_error rfl
  | indicator slug p => exact failsWith_ok
  | call name args p ih =>
    obtain ⟨-, -, -, hargs⟩ := isCanonical_call_iff.mp hf
    cases hfunction : Function.ofName? name with
    | none =>
      simp only [shape, hfunction]
      exact failsWith_error rfl
    | some f =>
      by_cases hlength : args.length = f.arity
      · rw [shape_call hfunction hlength]
        refine (checkArguments_failsWith fun arg harg => ⟨?_, ?_⟩).bind fun _ _ => failsWith_ok
        · rintro rfl
          cases hargs hole harg
        · exact ih arg harg (hargs arg harg)
      · simp only [shape, hfunction, ne_eq, hlength, not_false_eq_true, if_true]
        exact failsWith_error rfl
  | hole => cases hf

end Formula

open SeriesStore

namespace MemoryStore

/-- A store in memory answers whatever it is asked for. -/
theorem firstFault?_checks (store : MemoryStore) (slugs : List String) :
    store.toStore.firstFault? (checks slugs) = none := by
  induction slugs with
  | nil => rfl
  | cons slug rest ih => exact ih

/-- A store in memory that does not deliver has no series of the name. -/
theorem fault?_toStore {store : MemoryStore} {call : StoreCall} {fault : StoreFault}
    (h : store.toStore.fault? call = some fault) : ∃ slug, fault = .noSeries slug := by
  cases call with
  | isActive slug => cases h
  | fetch slug first last =>
    cases hpoints : store.points.find? slug <;>
      simp [SeriesStore.fault?, toStore, fetch, hpoints, Except.map] at h
    exact ⟨slug, h.symm⟩

/-- The indicators of a formula that are not in use in the store. -/
def missing (store : MemoryStore) (tree : Formula) : List String :=
  tree.dependencies.filter (store.toStore.answers false)

/-- A store in memory tells which indicators are missing. -/
theorem outcome_survey (store : MemoryStore) (tree : Formula) :
    (store.toStore.survey tree.dependencies).outcome = .ok (store.missing tree) := by
  rw [survey_outcome, firstFault?_checks]
  rfl

end MemoryStore

namespace Verdict

theorem valid_ofMissing {dependencies missing : List String} :
    (ofMissing dependencies missing).valid = true ↔ missing = [] := by
  cases missing <;> simp [ofMissing]

theorem unknownIndicators_ofMissing {dependencies missing : List String} :
    (ofMissing dependencies missing).unknownIndicators = missing := by
  cases missing <;> simp [ofMissing]

/-- A check over a store in memory refuses a formula that cannot be read or has a wrong call, and
otherwise tells which of its indicators are not in use. -/
theorem run_memory (store : MemoryStore) (text : String) :
    (∃ e, run (some store.toStore) text = ([], .ok (refused e))) ∨
      ∃ tree k, Formula.read text = .ok tree ∧ tree.shape = .ok k ∧
        run (some store.toStore) text = (checks tree.dependencies,
          .ok (ofMissing tree.dependencies (store.missing tree))) := by
  cases hread : Formula.read text with
  | error e => exact .inl ⟨.ofRead e, by simp only [run, examine, hread]⟩
  | ok tree =>
    cases hshape : tree.shape with
    | error fault =>
      have hmiscall := Formula.shape_failsWith (Formula.isCanonical_of_read hread) fault hshape
      cases fault with
      | reported e => exact .inl ⟨e, by simp [run, examine, hread, hshape, Except.map]⟩
      | _ => exact hmiscall.elim
    | ok k =>
      refine .inr ⟨tree, k, rfl, hshape, ?_⟩
      simp only [run, examine, hread, hshape, Except.map, survey_calls, store.outcome_survey,
        cut_eq_self (store.firstFault?_checks _)]

end Verdict

/-- A value cannot be brought into line because it is single or because it is empty. -/
theorem conform_eq_error {type : OutputForm} {v : Value} {e : CalcError}
    (h : conform type v = .error e) :
    e.cause = .outputNotSeries ∧ type = .series ∧ v.shape = .scalar ∨
      e.cause = .data .emptyOutput := by
  cases type with
  | series =>
    cases v with
    | series s => cases h
    | scalar x =>
      cases h
      exact .inl ⟨rfl, rfl, rfl⟩
  | single =>
    cases v with
    | scalar x => cases h
    | series s =>
      cases hlast : s.last? with
      | some p => simp [conform, hlast] at h
      | none =>
        simp only [conform, hlast, Except.error.injEq] at h
        exact .inr (by rw [← h])

/-- A harvest without a failure has something for each indicator. -/
theorem SeriesStore.isSome_find?_harvest {store : SeriesStore} {first last : Option Date}
    {slugs : List String} (h : (store.harvest first last slugs).failure = none) :
    ∀ slug ∈ slugs,
      (Table.find? slug (store.harvest first last slugs).series).isSome = true := by
  induction slugs with
  | nil => simp
  | cons slug rest ih =>
    cases hfetch : store.fetch slug first last with
    | error fault => simp [harvest, hfetch] at h
    | ok observations =>
      simp only [harvest, hfetch] at h ⊢
      intro slug' hslug'
      by_cases heq : slug = slug'
      · simp [Table.find?, heq]
      · have hrest := (List.mem_cons.mp hslug').resolve_left (Ne.symm heq)
        simpa [Table.find?, heq] using ih h slug' hrest

namespace Run

variable {type : OutputForm} {context : Context} {tree : Formula}

/-- A run that fails with everything there does so because a series is not delivered or because
the evaluation fails. -/
theorem finish_failed {calls : List StoreCall} {events : List RunEvent} {harvest : Harvest}
    {stage : Stage} {e : CalcError}
    (h : (finish tree type context calls events harvest).ending = .failed stage e) :
    (∃ slug fault, harvest.failure = some (slug, fault) ∧
      fault.error? "fetching" slug = some e) ∨
    stage = .evaluating ∧ harvest.failure = none ∧
      conclude tree type context harvest.series = .error (.reported e) := by
  unfold finish at h
  dsimp only at h
  split at h
  · next slug fault hfailure =>
    unfold stopped at h
    split at h
    · next he =>
      cases h
      exact .inl ⟨slug, fault, hfailure, he⟩
    · cases h
  · next hnone =>
    split at h
    · cases h
    · next hconclude =>
      cases h
      exact .inr ⟨rfl, hnone, hconclude⟩
    · cases h

end Run

/-- What the run of a formula can still fail with if everything in it is known and there. -/
structure Formula.FailsLate (tree : Formula) (type : OutputForm) (stage : Stage) (e : CalcError) :
    Prop where
  /-- Every function exists. -/
  code_ne_unknownFunction : e.code ≠ .unknownFunction
  /-- Every call has the right count of arguments. -/
  code_ne_arity : e.code ≠ .arity
  /-- Every indicator is there. -/
  code_ne_unknownIndicator : e.code ≠ .unknownIndicator
  /-- What is of the wrong kind is a count of points, or a number for which a series is
  declared. -/
  count_or_output : e.code = .type →
    (∃ name index minimum got, e.cause = .notWhole name index minimum got) ∨
      e.cause = .outputNotSeries ∧ type = .series ∧ tree.shape = .ok .scalar
  /-- What cannot be read is a text that a function reads for itself. -/
  text : e.code = .parse → stage = .evaluating ∧ ∃ g ∈ tree.parts, Formula.TextFails g e

namespace Formula

variable {tree : Formula} {type : OutputForm} {stage : Stage} {e : CalcError}

/-- An error of the store or of the data is none of those that a check could have found. -/
theorem FailsLate.of_code (h : e.code = .sourceUnavailable ∨ e.code = .insufficientData) :
    FailsLate tree type stage e := by
  rcases h with h | h <;>
    exact ⟨by simp [h], by simp [h], by simp [h], by simp [h], by simp [h]⟩

/-- A single value where a series is declared fails late. -/
theorem FailsLate.of_output (hcause : e.cause = .outputNotSeries) (htype : type = .series)
    (hshape : tree.shape = .ok .scalar) : FailsLate tree type stage e := by
  have hcode : e.code = .type := by rw [CalcError.code, hcause, Cause.code]
  exact ⟨by simp [hcode], by simp [hcode], by simp [hcode],
    fun _ => .inr ⟨hcause, htype, hshape⟩, by simp [hcode]⟩

/-- The value of a formula that has passed the check fails late. -/
theorem FailsLate.of_value {observed : Observed} {k : Shape} (hf : tree.isCanonical = true)
    (hshape : tree.shape = .ok k) (hmissing : ∀ slug, ¬Missing observed tree slug)
    (h : tree.value observed = .error (.reported e)) : FailsLate tree type .evaluating e := by
  obtain ⟨hcall, hindicator⟩ : e.cause.isMiscall = false ∧ e.code ≠ .unknownIndicator := by
    rcases value_of_shape_eq_ok hf hshape hmissing with ⟨v, hv, -⟩ | ⟨e', he', h'⟩ | ⟨e', he'⟩
    · cases h.symm.trans hv
    · cases h.symm.trans he'
      exact h'
    · cases h.symm.trans he'
  obtain ⟨hfunction, harity, hcount⟩ := Cause.notWhole_of_isMiscall_eq_false hcall
  refine ⟨hfunction, harity, hindicator, fun hcode => .inl (hcount hcode), fun hcode => ?_⟩
  cases value_failsByText hf _ h with
  | other beyond => exact absurd hcode beyond
  | text part fails => exact ⟨rfl, _, part, fails⟩

end Formula

namespace Run

variable {store : MemoryStore} {type : OutputForm} {context : Context} {tree : Formula}
  {stage : Stage} {e : CalcError} {k : Shape}

/-- Over what was fetched a formula that has passed the check fails late. -/
theorem failsLate_of_conclude (hf : tree.isCanonical = true) (hshape : tree.shape = .ok k)
    (hall : (store.toStore.harvest context.startDate context.endDate tree.dependencies).failure =
      none)
    (h : conclude tree type context (store.toStore.delivered context tree) =
      .error (.reported e)) : tree.FailsLate type .evaluating e := by
  obtain ⟨observed, hobserved⟩ :
      ∃ observed, Formula.observe context (store.toStore.delivered context tree) =
        .ok observed := by
    cases hobserved : Formula.observe context (store.toStore.delivered context tree) with
    | ok observed => exact ⟨observed, rfl⟩
    | error fault =>
      obtain ⟨hevaluate, o, rfl⟩ := Formula.evaluate_eq_observation (f := tree) hobserved
      rw [conclude, hevaluate] at h
      cases h
  have hmissing := Formula.not_missing_of_fetched hobserved (isSome_find?_harvest hall)
  rw [conclude, Formula.evaluate_eq_value hobserved] at h
  cases hvalue : tree.value observed with
  | error fault =>
    simp only [hvalue, Except.error.injEq] at h
    subst h
    exact .of_value hf hshape hmissing hvalue
  | ok v =>
    simp only [hvalue] at h
    obtain ⟨e', hconform, he⟩ := mapError_eq_error.mp h
    cases he
    rcases conform_eq_error hconform with ⟨hcause, htype, hscalar⟩ | hcause
    · refine .of_output hcause htype ?_
      rcases Formula.value_of_shape_eq_ok hf hshape hmissing with ⟨w, hw, hk⟩ | ⟨e', he, -⟩ |
        ⟨e', he⟩
      · cases hvalue.symm.trans hw
        rw [hshape, ← hk, hscalar]
      · cases hvalue.symm.trans he
      · cases hvalue.symm.trans he
    · exact .of_code (.inr (by rw [CalcError.code, hcause]; rfl))

/-- The run of a formula that has passed the check fails late. -/
theorem failsLate_of_failed {begun : RunEvent} (hf : tree.isCanonical = true)
    (hshape : tree.shape = .ok k) (hmissing : store.missing tree = [])
    (h : (ofTree store.toStore type context begun tree).ending = .failed stage e) :
    tree.FailsLate type stage e := by
  simp only [ofTree, store.outcome_survey, hmissing] at h
  rcases finish_failed h with ⟨slug, fault, hfailure, he⟩ | ⟨rfl, hall, hconclude⟩
  · rw [harvest_failure] at hfailure
    obtain ⟨⟨call, fault'⟩, hfirst, hentry⟩ := Option.map_eq_some_iff.mp hfailure
    cases hentry
    obtain ⟨name, rfl⟩ := MemoryStore.fault?_toStore (fault?_of_firstFault? hfirst).2
    cases he
    exact .of_code (.inl rfl)
  · exact failsLate_of_conclude hf hshape hall hconclude

end Run

namespace Calculation

variable {store : SeriesStore} {now : Stamp} {repository : Repository} {keep : Bool}
  {context : Context} {c : Calculation}

/-- A result with an error is that of a run that failed. -/
theorem failed_of_error {r : Outcome} {e : CalcError}
    (h : (c.execute store now repository keep context).result = .ok r) (he : r.error = some e) :
    ∃ stage, r = .ofFailure c stage e ∧
      (Run.ofFormula store c.outputForm context c.formula).ending = .failed stage e := by
  simp only [execute] at h
  split at h
  · split at h
    · cases h
    · cases h
      cases he
  · next stage e' hending =>
    cases h
    cases he
    exact ⟨stage, rfl, hending⟩
  · cases h

/-- A check over a store in memory comes to a verdict, and a run over the same store keeps to it.
If the formula passes, a run that fails does so for reasons that lie in the data, in a count of
points, in the declared output or in a text that a function reads for itself. If indicators are
missing, the run fails for just those and has fetched nothing. -/
theorem execute_keeps_verdict (store : MemoryStore) (text : String) :
    ∃ calls verdict, Verdict.run (some store.toStore) text = (calls, .ok verdict) ∧
      ∀ (now : Stamp) (repository : Repository) (keep : Bool) (context : Context)
        (c : Calculation), c.formula = text →
        (verdict.valid = true → ∃ tree, Formula.read text = .ok tree ∧ ∀ r e,
          (c.execute store.toStore now repository keep context).result = .ok r →
          r.error = some e →
            ∃ stage, r = .ofFailure c stage e ∧ tree.FailsLate c.outputForm stage e) ∧
        (verdict.unknownIndicators ≠ [] →
          (c.execute store.toStore now repository keep context).result =
            .ok (.ofFailure c .surveying
              { cause := .unknownIndicators verdict.unknownIndicators }) ∧
          ∀ call ∈ (c.execute store.toStore now repository keep context).run.calls,
            ∃ slug, call = .isActive slug) := by
  rcases Verdict.run_memory store text with ⟨e, hrun⟩ | ⟨tree, k, hread, hshape, hrun⟩
  · refine ⟨_, _, hrun, fun now repository keep context c _ => ⟨?_, ?_⟩⟩
    · rintro ⟨⟩
    · intro h
      exact absurd rfl h
  · refine ⟨_, _, hrun, fun now repository keep context c hformula => ⟨?_, ?_⟩⟩
    · intro hvalid
      have hmissing := Verdict.valid_ofMissing.mp hvalid
      refine ⟨tree, hread, fun r e hr he => ?_⟩
      obtain ⟨stage, rfl, hending⟩ := failed_of_error hr he
      rw [ofFormula_eq_ofTree (hformula ▸ hread)] at hending
      exact ⟨stage, rfl, Run.failsLate_of_failed (Formula.isCanonical_of_read hread) hshape
        hmissing hending⟩
    · rw [Verdict.unknownIndicators_ofMissing]
      intro hunknown
      have htree : Formula.read c.formula = .ok tree := hformula ▸ hread
      obtain ⟨slug, rest, hmissing⟩ := List.exists_cons_of_ne_nil hunknown
      have hplan : store.toStore.plan context tree.dependencies = checks tree.dependencies :=
        plan_of_missing hmissing
      have hfirst := store.firstFault?_checks tree.dependencies
      rw [hmissing]
      refine ⟨execute_of_missing htree (hplan ▸ hfirst) hmissing, ?_⟩
      rw [execute_calls htree, hplan, cut_eq_self hfirst]
      intro call hcall
      obtain ⟨slug, -, rfl⟩ := List.mem_map.mp hcall
      exact ⟨slug, rfl⟩

end Calculation

namespace Misspelled

open Formula

/-- The index that has no weights. -/
def index : Calculation :=
  { id := none, name := "Index", slug := "index", formula := "WEIGHTED_INDEX(bad)",
    outputForm := .series, description := "", dependencies := [], lastRun := none,
    lastResult := .null }

/-- The formula of the index. -/
def tree : Formula := call "WEIGHTED_INDEX" [literal "bad" 15] 0

theorem read_index : Formula.read index.formula = .ok tree := by cbv

theorem shape_tree : tree.shape = .ok .series := by cbv

/-- What the function tells of the text. -/
def error : CalcError :=
  { cause := .unreadable ⟨.malformedWeight "bad", 15⟩, position := some 15,
    function := some "WEIGHTED_INDEX" }

theorem textFails_tree : TextFails tree error := .weights (by cbv)

/-- The check passes the index. -/
theorem run_index :
    Verdict.run (some (MemoryStore.toStore {})) index.formula = ([], .ok { valid := true }) := by
  simp only [Verdict.run, Verdict.examine, read_index, shape_tree, Except.map]
  rfl

/-- The run of the index fails. -/
theorem execute_index :
    (index.execute (MemoryStore.toStore {}) ⟨⟨0⟩, 0, 0, none⟩ {} false {}).result =
      .ok (.ofFailure index .evaluating error) := by
  have hconclude : Run.conclude tree .series {} [] = .error (.reported error) := by
    have hevaluate : tree.evaluate [] {} = .error (.reported error) :=
      (evaluate_eq_value rfl).trans (value_of_textFails textFails_tree [])
    rw [Run.conclude, hevaluate]
  apply Calculation.execute_failed
  rw [Calculation.ofFormula_eq_ofTree read_index]
  change (Run.finish tree .series {} [] _ ⟨[], [], none⟩).ending = _
  simp only [Run.finish, hconclude, Run.failing]

/-- The same with an indicator that is not there. -/
def unknown : Calculation := { index with formula := "x" }

/-- The check finds the unknown indicator. -/
theorem run_unknown :
    Verdict.run (some (MemoryStore.toStore {})) unknown.formula =
      ([.isActive "x"], .ok (.ofMissing ["x"] ["x"])) := by
  have hread : Formula.read unknown.formula = .ok (indicator "x" 0) := by cbv
  simp only [Verdict.run, Verdict.examine, hread, shape, Except.map]
  rfl

end Misspelled

namespace Calculation

/-- The index passes and fails late, and the unknown indicator is told of before any fetch. -/
theorem execute_keeps_verdict_misspelled :
    (∃ stage, Misspelled.tree.FailsLate .series stage Misspelled.error) ∧
      (Misspelled.unknown.execute (MemoryStore.toStore {}) ⟨⟨0⟩, 0, 0, none⟩ {} false {}).result =
        .ok (.ofFailure Misspelled.unknown .surveying { cause := .unknownIndicators ["x"] }) := by
  constructor
  · obtain ⟨calls, verdict, hrun, hkeeps⟩ := execute_keeps_verdict {} Misspelled.index.formula
    cases hrun.symm.trans Misspelled.run_index
    obtain ⟨tree, hread, hfails⟩ := (hkeeps _ {} false {} Misspelled.index rfl).1 rfl
    cases hread.symm.trans Misspelled.read_index
    obtain ⟨stage, -, hlate⟩ := hfails _ _ Misspelled.execute_index rfl
    exact ⟨stage, hlate⟩
  · obtain ⟨calls, verdict, hrun, hkeeps⟩ := execute_keeps_verdict {} Misspelled.unknown.formula
    cases hrun.symm.trans Misspelled.run_unknown
    exact ((hkeeps _ {} false {} Misspelled.unknown rfl).2 (List.cons_ne_nil _ _)).1

/-- A formula that passes the check can fail as one that cannot be read. -/
theorem not_execute_keeps_verdict :
    ¬∀ (store : MemoryStore) (now : Stamp) (repository : Repository) (keep : Bool)
      (context : Context) (c : Calculation) (calls : List StoreCall) (verdict : Verdict)
      (r : Outcome) (e : CalcError),
      Verdict.run (some store.toStore) c.formula = (calls, .ok verdict) → verdict.valid = true →
      (c.execute store.toStore now repository keep context).result = .ok r → r.error = some e →
        e.code ≠ .parse := by
  intro h
  exact h {} _ _ _ _ Misspelled.index _ _ _ _ Misspelled.run_index rfl Misspelled.execute_index
    rfl rfl

end Calculation

end IndicatorFormula
