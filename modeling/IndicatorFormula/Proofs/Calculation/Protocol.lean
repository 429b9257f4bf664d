import IndicatorFormula.Calculation.Run
import IndicatorFormula.Proofs.Except

/-!
# The calls of a run to its store

A run has a plan: to ask for every indicator of the formula and then, if all are there, to
fetch every series, both in the order of the slugs. It makes the calls of its plan one after
another until one fails. What it makes of them depends on the formula, on what the
calculation puts out, on the context and on the store, and on nothing that was kept of an
earlier run.
-/

namespace IndicatorFormula

namespace StoreCall

/-- The indicator that a call is about. -/
def slug : StoreCall → String
  | isActive slug => slug
  | fetch slug _ _ => slug

/-- The stage of a run in which a call is made. -/
def stage : StoreCall → Stage
  | isActive _ => .surveying
  | fetch _ _ _ => .fetching

/-- What a call does, in the words of an error. -/
def activity : StoreCall → String
  | isActive _ => "checking"
  | fetch _ _ _ => "fetching"

end StoreCall

namespace SeriesStore

/-- How a call fails, if it does. -/
def fault? (store : SeriesStore) : StoreCall → Option StoreFault
  | .isActive slug => match store.isActive slug with
    | .error fault => some fault
    | .ok _ => none
  | .fetch slug first last => match store.fetch slug first last with
    | .error fault => some fault
    | .ok _ => none

/-- The calls up to the first that fails, which is made as well. -/
def cut (store : SeriesStore) : List StoreCall → List StoreCall
  | [] => []
  | call :: rest => match store.fault? call with
    | some _ => [call]
    | none => call :: cut store rest

/-- The first call that fails, and how. -/
def firstFault? (store : SeriesStore) : List StoreCall → Option (StoreCall × StoreFault)
  | [] => none
  | call :: rest => match store.fault? call with
    | some fault => some (call, fault)
    | none => firstFault? store rest

/-- Whether a store gives an answer when asked for an indicator. -/
def answers (store : SeriesStore) (answer : Bool) (slug : String) : Bool :=
  match store.isActive slug with
  | .ok active => active == answer
  | .error _ => false

/-- The calls to ask for indicators. -/
def checks (slugs : List String) : List StoreCall := slugs.map .isActive

/-- The calls to fetch series. -/
def fetches (context : Context) (slugs : List String) : List StoreCall :=
  slugs.map (.fetch · context.startDate context.endDate)

/-- The calls that a run sets out to make. -/
def plan (store : SeriesStore) (context : Context) (slugs : List String) : List StoreCall :=
  if slugs.all (store.answers true) then checks slugs ++ fetches context slugs
  else checks slugs

variable {store : SeriesStore}

/-- Where no call fails all are made. -/
theorem cut_eq_self {calls : List StoreCall} (h : store.firstFault? calls = none) :
    store.cut calls = calls := by
  induction calls with
  | nil => rfl
  | cons call rest ih =>
    cases hfault : store.fault? call with
    | some fault => simp [firstFault?, hfault] at h
    | none =>
      rw [firstFault?, hfault] at h
      simp only [cut, hfault, ih h]

/-- Behind calls that do not fail the others are made up to the first that does. -/
theorem cut_append {calls more : List StoreCall} (h : store.firstFault? calls = none) :
    store.cut (calls ++ more) = calls ++ store.cut more := by
  induction calls with
  | nil => rfl
  | cons call rest ih =>
    cases hfault : store.fault? call with
    | some fault => simp [firstFault?, hfault] at h
    | none =>
      rw [firstFault?, hfault] at h
      simp only [List.cons_append, cut, hfault, ih h]

/-- The first failure behind calls that do not fail is one of the others. -/
theorem firstFault?_append {calls more : List StoreCall} (h : store.firstFault? calls = none) :
    store.firstFault? (calls ++ more) = store.firstFault? more := by
  induction calls with
  | nil => rfl
  | cons call rest ih =>
    cases hfault : store.fault? call with
    | some fault => simp [firstFault?, hfault] at h
    | none =>
      rw [firstFault?, hfault] at h
      simp only [List.cons_append, firstFault?, hfault, ih h]

/-- A survey asks up to the first call that fails. -/
theorem survey_calls (slugs : List String) :
    (store.survey slugs).calls = store.cut (checks slugs) := by
  induction slugs with
  | nil => rfl
  | cons slug rest ih =>
    cases hactive : store.isActive slug with
    | error fault => simp [survey, checks, cut, fault?, hactive]
    | ok active => simpa [survey, checks, cut, fault?, hactive] using ih

/-- The outcome of asking: where the store failed, or the indicators that are not there. -/
theorem survey_outcome (store : SeriesStore) (slugs : List String) :
    (store.survey slugs).outcome = match store.firstFault? (checks slugs) with
      | some (call, fault) => .error (call.slug, fault)
      | none => .ok (slugs.filter (store.answers false)) := by
  induction slugs with
  | nil => rfl
  | cons slug rest ih =>
    cases hactive : store.isActive slug with
    | error fault => simp [survey, checks, firstFault?, fault?, hactive, StoreCall.slug]
    | ok active =>
      have hfirst :
          store.firstFault? (checks (slug :: rest)) = store.firstFault? (checks rest) := by
        simp [checks, firstFault?, fault?, hactive]
      simp only [survey, hactive, hfirst, ih]
      cases store.firstFault? (checks rest) with
      | some entry => rfl
      | none => cases active <;> simp [Except.map, answers, hactive]

/-- A harvest fetches up to the first call that fails. -/
theorem harvest_calls (context : Context) (slugs : List String) :
    (store.harvest context.startDate context.endDate slugs).calls =
      store.cut (fetches context slugs) := by
  induction slugs with
  | nil => rfl
  | cons slug rest ih =>
    cases hfetch : store.fetch slug context.startDate context.endDate with
    | error fault => simp [harvest, fetches, cut, fault?, hfetch]
    | ok observations => simpa [harvest, fetches, cut, fault?, hfetch] using ih

/-- A harvest fails where the first of its calls does. -/
theorem harvest_failure (store : SeriesStore) (context : Context) (slugs : List String) :
    (store.harvest context.startDate context.endDate slugs).failure =
      (store.firstFault? (fetches context slugs)).map fun entry => (entry.1.slug, entry.2) := by
  induction slugs with
  | nil => rfl
  | cons slug rest ih =>
    cases hfetch : store.fetch slug context.startDate context.endDate with
    | error fault => simp [harvest, fetches, firstFault?, fault?, hfetch, StoreCall.slug]
    | ok observations => simpa [harvest, fetches, firstFault?, fault?, hfetch] using ih

/-- The first failure is that of one of the calls. -/
theorem fault?_of_firstFault? {calls : List StoreCall} {call : StoreCall} {fault : StoreFault}
    (h : store.firstFault? calls = some (call, fault)) :
    call ∈ calls ∧ store.fault? call = some fault := by
  induction calls with
  | nil => simp [firstFault?] at h
  | cons first rest ih =>
    cases hfault : store.fault? first with
    | some fault' =>
      simp only [firstFault?, hfault, Option.some.injEq, Prod.mk.injEq] at h
      obtain ⟨rfl, rfl⟩ := h
      exact ⟨List.mem_cons_self .., hfault⟩
    | none =>
      rw [firstFault?, hfault] at h
      exact ⟨List.mem_cons_of_mem _ (ih h).1, (ih h).2⟩

/-- Where there is no first failure no call fails. -/
theorem fault?_eq_none {calls : List StoreCall} (h : store.firstFault? calls = none) :
    ∀ call ∈ calls, store.fault? call = none := by
  induction calls with
  | nil => simp
  | cons first rest ih =>
    cases hfault : store.fault? first with
    | some fault' => simp [firstFault?, hfault] at h
    | none =>
      rw [firstFault?, hfault] at h
      exact List.forall_mem_cons.mpr ⟨hfault, ih h⟩

/-- Nothing is to be fetched if the store fails when it is asked. -/
theorem plan_of_fault {context : Context} {slugs : List String} {call : StoreCall}
    {fault : StoreFault} (h : store.firstFault? (checks slugs) = some (call, fault)) :
    store.plan context slugs = checks slugs := by
  obtain ⟨hmem, hfault⟩ := fault?_of_firstFault? h
  obtain ⟨slug, hslug, rfl⟩ := List.mem_map.mp hmem
  refine if_neg fun hall => ?_
  have hanswer := List.all_eq_true.mp hall slug hslug
  cases hactive : store.isActive slug <;> simp [answers, fault?, hactive] at hanswer hfault

/-- Nothing is to be fetched if an indicator is not there. -/
theorem plan_of_missing {context : Context} {slug : String} {slugs rest : List String}
    (h : slugs.filter (store.answers false) = slug :: rest) :
    store.plan context slugs = checks slugs := by
  obtain ⟨hslug, hfalse⟩ := List.mem_filter.mp (h ▸ List.mem_cons_self (a := slug) (l := rest))
  refine if_neg fun hall => ?_
  have htrue := List.all_eq_true.mp hall slug hslug
  cases hactive : store.isActive slug <;> simp [answers, hactive] at htrue hfalse
  simp [htrue] at hfalse

/-- All series are to be fetched if all indicators are there. -/
theorem plan_of_found {context : Context} {slugs : List String}
    (h : store.firstFault? (checks slugs) = none)
    (hfound : slugs.filter (store.answers false) = []) :
    store.plan context slugs = checks slugs ++ fetches context slugs := by
  refine if_pos (List.all_eq_true.mpr fun slug hslug => ?_)
  have hfault := fault?_eq_none h (.isActive slug) (List.mem_map_of_mem hslug)
  have hfalse := List.filter_eq_nil_iff.mp hfound slug hslug
  cases hactive : store.isActive slug <;> simp [answers, fault?, hactive] at hfault hfalse ⊢
  exact hfalse

end SeriesStore

namespace Run

open SeriesStore

variable {store : SeriesStore} {context : Context} {type : OutputForm} {begun : RunEvent}
  {tree : Formula}

/-- A failure of the store adds no call. -/
theorem stopped_calls {calls : List StoreCall} {events : List RunEvent} {counts : List Nat}
    {stage : Stage} {activity slug : String} {fault : StoreFault} :
    (stopped calls events counts stage activity slug fault).calls = calls := by
  unfold stopped
  split <;> rfl

/-- From the harvest on there are no further calls. -/
theorem finish_calls {calls : List StoreCall} {events : List RunEvent} {harvest : Harvest} :
    (finish tree type context calls events harvest).calls = calls := by
  unfold finish
  split
  · exact stopped_calls
  · split <;> rfl

/-- A run makes the calls of its plan up to the first that fails. -/
theorem ofTree_calls :
    (ofTree store type context begun tree).calls =
      store.cut (store.plan context tree.dependencies) := by
  have houtcome := survey_outcome store tree.dependencies
  unfold ofTree
  cases hfault : store.firstFault? (checks tree.dependencies) with
  | some entry =>
    simp only [hfault] at houtcome
    simp only [houtcome, stopped_calls, survey_calls, plan_of_fault hfault]
  | none =>
    simp only [hfault] at houtcome
    cases hmissing : tree.dependencies.filter (store.answers false) with
    | cons slug rest =>
      simp only [houtcome, hmissing, failing, survey_calls, plan_of_missing hmissing]
    | nil =>
      simp only [houtcome, hmissing, finish_calls, survey_calls, harvest_calls,
        plan_of_found hfault hmissing, cut_append hfault, cut_eq_self hfault]

theorem stopped_ending {calls : List StoreCall} {events : List RunEvent} {counts : List Nat}
    {stage : Stage} {activity slug : String} {fault : StoreFault} {e : CalcError}
    (h : fault.error? activity slug = some e) :
    (stopped calls events counts stage activity slug fault).ending = .failed stage e := by
  simp only [stopped, h, failing]

/-- Behind a harvest without failure only the evaluation can fail. -/
theorem finish_stage {calls : List StoreCall} {events : List RunEvent} {harvest : Harvest}
    {stage : Stage} {e : CalcError} (hnone : harvest.failure = none)
    (h : (finish tree type context calls events harvest).ending = .failed stage e) :
    stage = .evaluating := by
  simp only [finish, hnone] at h
  split at h
  · cases h
  · cases h
    rfl
  · cases h

/-- A run stops in the stage of the first call that fails and with the error of that
failure; if all indicators answer and some are not there it names those; and if everything
was fetched only the evaluation can fail. -/
theorem ofTree_ending :
    match store.firstFault? (store.plan context tree.dependencies) with
    | some (call, fault) => ∀ e, fault.error? call.activity call.slug = some e →
      (ofTree store type context begun tree).ending = .failed call.stage e
    | none => match tree.dependencies.filter (store.answers false) with
      | [] => ∀ stage e, (ofTree store type context begun tree).ending = .failed stage e →
        stage = .evaluating
      | missing => (ofTree store type context begun tree).ending =
        .failed .surveying { cause := .unknownIndicators missing } := by
  have houtcome := survey_outcome store tree.dependencies
  unfold ofTree
  cases hfault : store.firstFault? (checks tree.dependencies) with
  | some entry =>
    obtain ⟨call, fault⟩ := entry
    obtain ⟨hmem, -⟩ := fault?_of_firstFault? hfault
    obtain ⟨slug, -, rfl⟩ := List.mem_map.mp hmem
    simp only [hfault] at houtcome
    simp only [plan_of_fault hfault, hfault, houtcome]
    exact fun e he => stopped_ending he
  | none =>
    simp only [hfault] at houtcome
    cases hmissing : tree.dependencies.filter (store.answers false) with
    | cons slug rest =>
      simp only [plan_of_missing hmissing, hfault, houtcome, hmissing, failing]
    | nil =>
      have hfailure := harvest_failure store context tree.dependencies
      simp only [plan_of_found hfault hmissing, firstFault?_append hfault, houtcome, hmissing]
      cases hfetch : store.firstFault? (fetches context tree.dependencies) with
      | some entry =>
        obtain ⟨call, fault⟩ := entry
        obtain ⟨hmem, -⟩ := fault?_of_firstFault? hfetch
        obtain ⟨slug, -, rfl⟩ := List.mem_map.mp hmem
        simp only [hfetch, Option.map_some] at hfailure
        simp only [finish, hfailure]
        exact fun e he => stopped_ending he
      | none =>
        simp only [hfetch, Option.map_none] at hfailure
        exact fun stage e h => finish_stage hfailure h

end Run

/-- An error tells of a failure: it is the error that the store states, if it states one, and
an error of a source that is not available otherwise. -/
def StoreFault.IsToldBy (e : CalcError) : StoreFault → Prop
  | .stated told => e = told
  | _ => e.code = .sourceUnavailable

/-- A failure of a store that has no defect is told of. -/
theorem StoreFault.exists_error? {fault : StoreFault} (h : ∀ message, fault ≠ .missingKey message)
    (activity slug : String) :
    ∃ e, fault.error? activity slug = some e ∧ fault.IsToldBy e := by
  cases fault with
  | stated e => exact ⟨e, rfl, rfl⟩
  | missingKey message => exact absurd rfl (h message)
  | _ => exact ⟨_, rfl, rfl⟩

/-- A store that looks for no key that is not there. -/
structure SeriesStore.IsSound (store : SeriesStore) : Prop where
  /-- It finds its keys when it is asked for an indicator. -/
  isActive : ∀ slug message, store.isActive slug ≠ .error (.missingKey message)
  /-- It finds its keys when a series is fetched. -/
  fetch : ∀ slug first last message, store.fetch slug first last ≠ .error (.missingKey message)

/-- A sound store misses no key. -/
theorem SeriesStore.IsSound.fault_ne {store : SeriesStore} (h : store.IsSound) {call : StoreCall}
    {fault : StoreFault} (hfault : store.fault? call = some fault) (message : String) :
    fault ≠ .missingKey message := by
  rintro rfl
  cases call with
  | isActive slug =>
    cases hactive : store.isActive slug <;> simp [fault?, hactive] at hfault
    exact h.isActive slug message (by rw [hactive, hfault])
  | fetch slug first last =>
    cases hfetch : store.fetch slug first last <;> simp [fault?, hfetch] at hfault
    exact h.fetch slug first last message (by rw [hfetch, hfault])

/-- The outcome of a run that failed. -/
def Outcome.ofFailure (c : Calculation) (stage : Stage) (e : CalcError) : Outcome :=
  { calculation := c, state := .failed, error := some e, failedStage := some stage }

/-- What an outcome tells of the run, the calculation aside. -/
def Outcome.report (r : Outcome) :
    Stage × Option Value × Option Date × Option CalcError × Option Stage :=
  (r.state, r.value, r.asOf, r.error, r.failedStage)

namespace Calculation

variable {store : SeriesStore} {now now' : Stamp} {repository repository' : Repository}
  {keep keep' : Bool} {context : Context} {c c' : Calculation}

/-- A calculation makes the calls of its run. -/
theorem execute_run_calls :
    (c.execute store now repository keep context).run.calls =
      (Run.ofFormula store c.outputForm context c.formula).calls := by
  simp only [execute]
  cases (Run.ofFormula store c.outputForm context c.formula).ending with
  | succeeded value asOf dependencies =>
    dsimp only
    cases Payload.ofValue c.outputForm context asOf value <;> rfl
  | failed stage e => rfl
  | escaped e => rfl

theorem execute_failed {stage : Stage} {e : CalcError}
    (h : (Run.ofFormula store c.outputForm context c.formula).ending = .failed stage e) :
    (c.execute store now repository keep context).result = .ok (.ofFailure c stage e) := by
  simp only [execute, h, Outcome.ofFailure]

/-- If only the evaluation can fail then a result has failed there or not at all. -/
theorem failedStage_execute {r : Outcome}
    (h : ∀ stage e, (Run.ofFormula store c.outputForm context c.formula).ending =
      .failed stage e → stage = .evaluating)
    (hr : (c.execute store now repository keep context).result = .ok r) :
    r.failedStage = none ∨ r.failedStage = some .evaluating := by
  simp only [execute] at hr
  cases hending : (Run.ofFormula store c.outputForm context c.formula).ending with
  | succeeded value asOf dependencies =>
    rw [hending] at hr
    cases hpayload : Payload.ofValue c.outputForm context asOf value <;> simp [hpayload] at hr
    exact .inl (by rw [← hr])
  | failed stage e =>
    simp only [hending, Except.ok.injEq] at hr
    exact .inr (by rw [← hr, h stage e hending])
  | escaped e => simp [hending] at hr

/-- What comes of a run does not depend on what is kept of the calculation. -/
theorem execute_congr (hformula : c'.formula = c.formula)
    (hform : c'.outputForm = c.outputForm) :
    (c'.execute store now' repository' keep' context).run =
        (c.execute store now repository keep context).run ∧
      (c'.execute store now' repository' keep' context).result.map Outcome.report =
        (c.execute store now repository keep context).result.map Outcome.report := by
  simp only [execute, hformula, hform]
  cases (Run.ofFormula store c.outputForm context c.formula).ending with
  | succeeded value asOf dependencies =>
    dsimp only
    cases Payload.ofValue c.outputForm context asOf value <;> exact ⟨rfl, rfl⟩
  | failed stage e => exact ⟨rfl, rfl⟩
  | escaped e => exact ⟨rfl, rfl⟩

/-- A formula that cannot be read is no reason for a call. -/
theorem execute_of_read_error {e : ReadError} (h : Formula.read c.formula = .error e) :
    (c.execute store now repository keep context).run.calls = [] ∧
      (c.execute store now repository keep context).result =
        .ok (.ofFailure c .reading (.ofRead e)) := by
  have hrun : Run.ofFormula store c.outputForm context c.formula =
      Run.failing [] [.started c.formula] [] .reading (.ofRead e) := by
    simp only [Run.ofFormula, h]
  constructor
  · rw [execute_run_calls, hrun, Run.failing]
  · apply execute_failed
    rw [hrun, Run.failing]

section Tree

variable {tree : Formula} (htree : Formula.read c.formula = .ok tree)

include htree

/-- A run of what was read makes the calls of its plan up to the first that fails. -/
theorem execute_calls :
    (c.execute store now repository keep context).run.calls =
      store.cut (store.plan context tree.dependencies) := by
  rw [execute_run_calls, Run.ofFormula, htree]
  exact Run.ofTree_calls

theorem ofFormula_eq_ofTree :
    Run.ofFormula store c.outputForm context c.formula =
      Run.ofTree store c.outputForm context (.started c.formula) tree := by
  simp only [Run.ofFormula, htree]

/-- A call that fails decides the outcome. -/
theorem execute_of_fault (hstore : store.IsSound) {call : StoreCall} {fault : StoreFault}
    (h : store.firstFault? (store.plan context tree.dependencies) = some (call, fault)) :
    ∃ e, (c.execute store now repository keep context).result =
      .ok (.ofFailure c call.stage e) ∧ fault.IsToldBy e := by
  have hending := @Run.ofTree_ending store context c.outputForm (.started c.formula) tree
  rw [← ofFormula_eq_ofTree htree] at hending
  simp only [h] at hending
  have hfault := (SeriesStore.fault?_of_firstFault? h).2
  obtain ⟨e, he, htold⟩ :=
    StoreFault.exists_error? (hstore.fault_ne hfault) call.activity call.slug
  exact ⟨e, execute_failed (hending e he), htold⟩

/-- Indicators that are not there decide the outcome if no call fails. -/
theorem execute_of_missing {slug : String} {rest : List String}
    (h : store.firstFault? (store.plan context tree.dependencies) = none)
    (hmissing : tree.dependencies.filter (store.answers false) = slug :: rest) :
    (c.execute store now repository keep context).result =
      .ok (.ofFailure c .surveying { cause := .unknownIndicators (slug :: rest) }) := by
  have hending := @Run.ofTree_ending store context c.outputForm (.started c.formula) tree
  rw [← ofFormula_eq_ofTree htree] at hending
  simp only [h, hmissing] at hending
  exact execute_failed hending

/-- If every series was fetched then only the evaluation can fail. -/
theorem failedStage_of_fetched {r : Outcome}
    (h : store.firstFault? (store.plan context tree.dependencies) = none)
    (hmissing : tree.dependencies.filter (store.answers false) = [])
    (hr : (c.execute store now repository keep context).result = .ok r) :
    r.failedStage = none ∨ r.failedStage = some .evaluating := by
  have hending := @Run.ofTree_ending store context c.outputForm (.started c.formula) tree
  rw [← ofFormula_eq_ofTree htree] at hending
  simp only [h, hmissing] at hending
  exact failedStage_execute hending hr

end Tree

/-- The calls that a run makes to its store. A formula that cannot be read is no reason for
a call. Otherwise the run asks for each of its indicators once and in order, then fetches each
series once and in order if all of them are there, and stops at the first call that fails: in
the stage of that call, with the error that the store states or else with one of a source
that is not available. If indicators are not there it names them all and fetches nothing.
Nothing of this depends on what is kept of the calculation. -/
theorem execute_follows_plan (hstore : store.IsSound) (now : Stamp) (repository : Repository)
    (keep : Bool) (context : Context) (c : Calculation) :
    (∀ e, Formula.read c.formula = .error e →
      (c.execute store now repository keep context).run.calls = [] ∧
      (c.execute store now repository keep context).result =
        .ok (.ofFailure c .reading (.ofRead e))) ∧
    (∀ tree, Formula.read c.formula = .ok tree →
      tree.dependencies.Pairwise (· < ·) ∧
      (c.execute store now repository keep context).run.calls =
        store.cut (store.plan context tree.dependencies) ∧
      match store.firstFault? (store.plan context tree.dependencies) with
      | some (call, fault) => ∃ e,
        (c.execute store now repository keep context).result =
          .ok (.ofFailure c call.stage e) ∧ fault.IsToldBy e
      | none => match tree.dependencies.filter (store.answers false) with
        | [] => ∀ r, (c.execute store now repository keep context).result = .ok r →
          r.failedStage = none ∨ r.failedStage = some .evaluating
        | missing => (c.execute store now repository keep context).result =
          .ok (.ofFailure c .surveying { cause := .unknownIndicators missing })) ∧
    ∀ (c' : Calculation) (now' : Stamp) (repository' : Repository) (keep' : Bool),
      c'.formula = c.formula → c'.outputForm = c.outputForm →
        (c'.execute store now' repository' keep' context).run =
          (c.execute store now repository keep context).run ∧
        (c'.execute store now' repository' keep' context).result.map Outcome.report =
          (c.execute store now repository keep context).result.map Outcome.report := by
  refine ⟨?_, ?_, ?_⟩
  · intro e he
    exact execute_of_read_error he
  · intro tree htree
    refine ⟨Slugs.ofList_increasing _, execute_calls htree, ?_⟩
    cases hfirst : store.firstFault? (store.plan context tree.dependencies) with
    | some entry => exact execute_of_fault htree hstore hfirst
    | none =>
      cases hmissing : tree.dependencies.filter (store.answers false) with
      | cons slug rest => exact execute_of_missing htree hfirst hmissing
      | nil =>
        intro r hr
        exact failedStage_of_fetched htree hfirst hmissing hr
  · intro c' now' repository' keep' hformula hform
    exact execute_congr hformula hform

/-- A store in which every indicator is there and has no points. -/
def emptySeries : SeriesStore := ⟨fun _ => .ok true, fun _ _ _ => .ok []⟩

/-- A calculation whose formula names one of its indicators twice. -/
def namingTwice : Calculation :=
  { id := none, name := "Twice", slug := "twice", formula := "F(b, a, b)", outputForm := .single,
    description := "", dependencies := ["z"], lastRun := none, lastResult := .null }

/-- A slug that occurs twice is asked for and fetched once, and the order is that of slugs. -/
theorem execute_follows_plan_twice :
    emptySeries.IsSound ∧
      (namingTwice.execute emptySeries ⟨⟨0⟩, 0, 0, none⟩ {} false {}).run.calls =
        [.isActive "a", .isActive "b", .fetch "a" none none, .fetch "b" none none] := by
  have hsound : emptySeries.IsSound := ⟨by simp [emptySeries], by simp [emptySeries]⟩
  have hread : Formula.read namingTwice.formula = .ok (.call "F"
    [.indicator "b" 2, .indicator "a" 5, .indicator "b" 8] 0) := by cbv
  have hdependencies : Formula.dependencies (.call "F"
      [.indicator "b" 2, .indicator "a" 5, .indicator "b" 8] 0) = ["a", "b"] := by
    have hab : "a" < "b" := by decide
    have hba : ¬"b" < "a" := by decide
    have hbb : ¬"b" < "b" := by decide
    have hne : ¬"b" = "a" := by decide
    simp only [Formula.dependencies, Formula.slugs, Formula.argSlugs, List.cons_append,
      List.nil_append, Slugs.ofList, List.foldr, Slugs.insert, hab, hba, hbb, hne, if_true,
      if_false]
  refine ⟨hsound, ?_⟩
  rw [((execute_follows_plan hsound ⟨⟨0⟩, 0, 0, none⟩ {} false {} namingTwice).2.1 _ hread).2.1,
    hdependencies]
  rfl

end Calculation

end IndicatorFormula
