import IndicatorFormula.Proofs.Calculation.Protocol
import IndicatorFormula.Proofs.Evaluation.Agreement
import IndicatorFormula.Proofs.Evaluation.Failure
import IndicatorFormula.Proofs.Series.Observation
import IndicatorFormula.Store.Memory

/-!
# How a run ends

A run that gives a value has evaluated its formula over what the store delivered, and over a
store without a defect a run breaks off in the evaluation or where a date is written. What was
read is evaluated over observations on local clocks to a value or to an error that is told; the
exceptions are a date that the index cannot hold and a ratio over shortfalls whose deviation
vanishes. So a run over a store in memory gives a result, with these exceptions.
-/

namespace IndicatorFormula

open IndicatorFormula.Except

/-- An observation whose stamp names no instant and whose value is there. -/
structure Observation.IsPlain {α : Type} (o : Observation α) : Prop where
  /-- The stamp is taken as local wherever it is used. -/
  unplaced : o.stamp.isAware = false
  /-- The value is there. -/
  valued : ∃ x, o.value = some x

/-- Observations on local clocks make a series, or the index cannot hold one of their dates. -/
theorem Series.ofObservations_of_isPlain {α : Type} [Arith α] (context : Context)
    {os : List (Observation α)} (h : ∀ o ∈ os, o.IsPlain) :
    (∃ s, ofObservations context os = .ok s) ∨
      ofObservations context os = .error .outOfRange ∧
        ∃ o ∈ os, context.index.holds o.stamp.date = false := by
  have hdated : dated context os = .ok (os.filterMap (point? context)) :=
    dated_eq_ok_iff.mpr ⟨fun o ho => ⟨_, localDate_of_isAware_eq_false (h o ho).unplaced⟩,
      fun o ho => (h o ho).valued, rfl⟩
  by_cases hheld : ∀ p ∈ os.filterMap (point? context), context.index.holds p.1 = true
  · exact .inl ⟨_, bind_eq_ok.mpr ⟨_, hdated, bind_eq_ok.mpr
      ⟨_, indexed_eq_ok_iff.mpr ⟨hheld, rfl⟩, rfl⟩⟩⟩
  · push Not at hheld
    obtain ⟨p, hp, hunheld⟩ := hheld
    obtain ⟨o, ho, hpoint⟩ := List.mem_filterMap.mp hp
    have hdate : .ok o.stamp.date = Except.ok p.1 :=
      (localDate_of_isAware_eq_false (h o ho).unplaced).symm.trans (point?_eq_some_iff.mp hpoint).1
    refine .inr ⟨?_, o, ho, ?_⟩
    · have hall : ¬(dates (os.filterMap (point? context))).all context.index.holds = true := by
        rw [List.all_eq_true]
        exact fun hall => hunheld (hall p.1 (List.mem_map_of_mem hp))
      have hindexed : indexed context.index (os.filterMap (point? context)) =
          .error .outOfRange := if_neg hall
      rw [ofObservations, hdated]
      simp only [bind, Except.bind, hindexed]
    · rw [Except.ok.inj hdate]
      exact Bool.eq_false_iff.mpr hunheld

namespace Formula

/-- Observations on local clocks are series, or the index cannot hold one of their dates. -/
theorem observe_of_isPlain (context : Context)
    {fetched : Table String (List (Observation Float))}
    (h : ∀ entry ∈ fetched, ∀ o ∈ entry.2, o.IsPlain) :
    (∃ observed, observe context fetched = .ok observed) ∨
      observe context fetched = .error (.observation .outOfRange) ∧
        ∃ entry ∈ fetched, ∃ o ∈ entry.2, context.index.holds o.stamp.date = false := by
  cases hobserved : observe context fetched with
  | ok observed => exact .inl ⟨observed, rfl⟩
  | error fault =>
    obtain ⟨entry, hentry, hfault⟩ := error_of_mapM_eq_error hobserved
    obtain ⟨reason, hreason, rfl⟩ := mapError_eq_error.mp (map_eq_error.mp hfault)
    rcases Series.ofObservations_of_isPlain context (h entry hentry) with ⟨s, hs⟩ | ⟨hs, hunheld⟩
    · cases hreason.symm.trans hs
    · cases hreason.symm.trans hs
      exact .inr ⟨rfl, entry, hentry, hunheld⟩

end Formula

namespace MemoryStore

/-- Points in memory are observations on local clocks. -/
theorem isPlain_of_mem_observationsOf {s : Series Float} :
    ∀ o ∈ observationsOf s, o.IsPlain := by
  intro o ho
  obtain ⟨p, -, rfl⟩ := List.mem_map.mp ho
  exact ⟨rfl, p.2, rfl⟩

/-- A store in memory fails only in that it holds no series of a name. -/
theorem toStore_isSound (store : MemoryStore) : store.toStore.IsSound where
  isActive slug message := nofun
  fetch slug first last message := by
    cases hpoints : store.points.find? slug <;> simp [toStore, fetch, hpoints, Except.map]

end MemoryStore

namespace SeriesStore

/-- The series that a store delivers for a formula. -/
def delivered (store : SeriesStore) (context : Context) (tree : Formula) :
    Table String (List (Observation Float)) :=
  (store.harvest context.startDate context.endDate tree.dependencies).series

/-- What a harvest brings in was fetched. -/
theorem fetch_of_mem_harvest {store : SeriesStore} {first last : Option Date}
    {slugs : List String} {entry : String × List (Observation Float)}
    (h : entry ∈ (store.harvest first last slugs).series) :
    store.fetch entry.1 first last = .ok entry.2 := by
  induction slugs with
  | nil => cases h
  | cons slug rest ih =>
    cases hfetch : store.fetch slug first last with
    | error fault => simp [harvest, hfetch] at h
    | ok observations =>
      simp only [harvest, hfetch, List.mem_cons] at h
      rcases h with rfl | h
      · exact hfetch
      · exact ih h

end SeriesStore

/-- What a store in memory delivers was observed on local clocks, at dates that are held. -/
theorem MemoryStore.exists_of_mem_delivered (store : MemoryStore) (context : Context)
    (tree : Formula) {entry : String × List (Observation Float)}
    (hentry : entry ∈ store.toStore.delivered context tree) {o : Observation Float}
    (ho : o ∈ entry.2) :
    o.IsPlain ∧ ∃ slug s, store.points.find? slug = some s ∧ o.stamp.date ∈ s.dates := by
  obtain ⟨s, hs, hobservations⟩ := map_eq_ok.mp (SeriesStore.fetch_of_mem_harvest hentry)
  rw [← hobservations] at ho
  refine ⟨isPlain_of_mem_observationsOf o ho, entry.1, ?_⟩
  obtain ⟨p, hp, rfl⟩ := List.mem_map.mp ho
  unfold fetch at hs
  split at hs
  · next s' hpoints =>
    cases hs
    exact ⟨s', hpoints, List.mem_map_of_mem (List.mem_filter.mp hp).1⟩
  · cases hs

theorem MemoryStore.isPlain_of_mem_delivered (store : MemoryStore) (context : Context)
    (tree : Formula) :
    ∀ entry ∈ store.toStore.delivered context tree, ∀ o ∈ entry.2, o.IsPlain :=
  fun _ hentry _ ho => (store.exists_of_mem_delivered context tree hentry ho).1

namespace Run

open SeriesStore

variable {store : SeriesStore} {type : OutputForm} {context : Context} {tree : Formula}

/-- The ways in which the run of a formula over a store without a defect can end. -/
inductive Ends (store : SeriesStore) (type : OutputForm) (context : Context) (tree : Formula) :
    Ending → Prop
  /-- With the value of the formula over what was delivered, as the output needs it. -/
  | succeeded {w v : Value} {asOf : Option Date}
    (evaluated : tree.evaluate (store.delivered context tree) context = .ok w)
    (conformed : conform type w = .ok (v, asOf)) :
    Ends store type context tree (.succeeded v asOf tree.dependencies)
  /-- With an error in some stage. -/
  | failed (stage : Stage) (e : CalcError) : Ends store type context tree (.failed stage e)
  /-- With a fault of the evaluation that is not told. -/
  | escaped {fault : Fault}
    (evaluated : tree.evaluate (store.delivered context tree) context = .error fault)
    (untold : ¬fault.IsTold) : Ends store type context tree (.escaped (.evaluation fault))

/-- A call that fails ends a run with an error. -/
theorem stopped_ends (hstore : store.IsSound) {calls : List StoreCall} {events : List RunEvent}
    {counts : List Nat} {stage : Stage} {activity slug : String} {call : StoreCall}
    {fault : StoreFault} (h : store.fault? call = some fault) :
    Ends store type context tree
      (stopped calls events counts stage activity slug fault).ending := by
  obtain ⟨e, he, -⟩ := StoreFault.exists_error? (hstore.fault_ne h) activity slug
  rw [stopped_ending he]
  exact .failed stage e

/-- A conclusion has a value of the formula that is brought into line. -/
theorem conclude_eq_ok {series : Table String (List (Observation Float))} {v : Value}
    {asOf : Option Date} (h : conclude tree type context series = .ok (v, asOf)) :
    ∃ w, tree.evaluate series context = .ok w ∧ conform type w = .ok (v, asOf) := by
  unfold conclude at h
  split at h
  · cases h
  · next w hw => exact ⟨w, hw, mapError_eq_ok.mp h⟩

/-- A conclusion that is not told comes from the evaluation. -/
theorem conclude_eq_error {series : Table String (List (Observation Float))} {fault : Fault}
    (h : conclude tree type context series = .error fault) (huntold : ¬fault.IsTold) :
    tree.evaluate series context = .error fault := by
  unfold conclude at h
  split at h
  · next hfault => rw [hfault, ← Except.error.inj h]
  · obtain ⟨e, -, rfl⟩ := mapError_eq_error.mp h
    exact absurd trivial huntold

/-- From the harvest on a run ends in one of the ways. -/
theorem finish_ends (hstore : store.IsSound) {calls : List StoreCall} {events : List RunEvent} :
    Ends store type context tree (finish tree type context calls events
      (store.harvest context.startDate context.endDate tree.dependencies)).ending := by
  unfold finish
  dsimp only
  split
  · next slug fault hfailure =>
    rw [harvest_failure] at hfailure
    obtain ⟨⟨call, fault⟩, hfirst, hentry⟩ := Option.map_eq_some_iff.mp hfailure
    cases hentry
    exact stopped_ends hstore (fault?_of_firstFault? hfirst).2
  · split
    · next v asOf hconclude =>
      obtain ⟨w, hw, hconform⟩ := conclude_eq_ok hconclude
      exact .succeeded hw hconform
    · exact .failed _ _
    · next fault hreported hconclude =>
      have huntold : ¬fault.IsTold := by
        cases fault with
        | reported e => exact absurd rfl (hreported e)
        | _ => exact not_false
      exact .escaped (conclude_eq_error hconclude huntold) huntold

/-- From the formula on a run ends in one of the ways. -/
theorem ofTree_ends (hstore : store.IsSound) {begun : RunEvent} :
    Ends store type context tree (ofTree store type context begun tree).ending := by
  simp only [ofTree]
  split
  · next slug fault houtcome =>
    rw [survey_outcome] at houtcome
    split at houtcome
    · next call _ hfirst =>
      cases houtcome
      exact stopped_ends hstore (fault?_of_firstFault? hfirst).2
    · cases houtcome
  · exact finish_ends hstore
  · exact .failed _ _

/-- A run of what was read ends in one of the ways. -/
theorem ofFormula_ends (hstore : store.IsSound) (type : OutputForm) (context : Context)
    {formula : String} (h : Formula.read formula = .ok tree) :
    Ends store type context tree (ofFormula store type context formula).ending := by
  rw [ofFormula, h]
  exact ofTree_ends hstore

end Run

/-- The evaluation of what was read breaks off in a ratio over shortfalls only. -/
theorem Formula.vanishing_of_evaluate {text : String} {f : Formula}
    (hread : Formula.read text = .ok f) {observed : Formula.Observed}
    {fetched : Table String (List (Observation Float))} {context : Context}
    (hobserved : Formula.observe context fetched = .ok observed) {fault : Fault}
    (h : f.evaluate fetched context = .error fault) (huntold : ¬fault.IsTold) :
    fault = .breakdown .vanishingShortfall ∧
      ∃ g ∈ f.parts, Formula.HasVanishingShortfall observed g ∧
        g.value observed = .error (.breakdown .vanishingShortfall) := by
  rw [evaluate_eq_value hobserved] at h
  cases value_failsWith (isCanonical_of_read hread) fault h with
  | told told => exact absurd told huntold
  | vanishing part vanishing =>
    exact ⟨rfl, _, part, vanishing, value_of_hasVanishingShortfall vanishing⟩

/-- A value cannot be rendered because a date cannot be written. -/
theorem Payload.exists_write_of_ofValue {type : OutputForm} {context : Context}
    {asOf : Option Date} {v : Value} {message : String}
    (h : ofValue type context asOf v = .error message) :
    ∃ d, context.write d = .error message := by
  cases v with
  | scalar x =>
    cases asOf with
    | none => cases h
    | some d =>
      rcases bind_eq_error.mp h with hdate | ⟨date, -, hdate⟩
      · simp only [Option.mapM_some] at hdate
        exact ⟨d, map_eq_error.mp hdate⟩
      · cases hdate
  | series s =>
    rcases bind_eq_error.mp h with hpoints | ⟨points, -, hpoints⟩
    · obtain ⟨p, -, hp⟩ := error_of_mapM_eq_error hpoints
      rcases bind_eq_error.mp hp with hdate | ⟨date, -, hdate⟩
      · exact ⟨p.1, hdate⟩
      · cases hdate
    · cases hpoints

namespace Calculation

variable {store : SeriesStore} {now : Stamp} {repository : Repository} {keep : Bool}
  {context : Context} {c : Calculation}

/-- A run over a store without a defect breaks off only if the evaluation does or if a date
cannot be written. -/
theorem evaluate_of_escape (hstore : store.IsSound) {escape : Escape}
    (h : (c.execute store now repository keep context).result = .error escape) :
    (∃ message, escape = .rendering message ∧ ∃ d, context.write d = .error message) ∨
      ∃ tree fault, Formula.read c.formula = .ok tree ∧ escape = .evaluation fault ∧
        tree.evaluate (store.delivered context tree) context = .error fault ∧ ¬fault.IsTold := by
  cases hread : Formula.read c.formula with
  | error e =>
    rw [(execute_of_read_error hread).2] at h
    cases h
  | ok tree =>
    have hends := Run.ofFormula_ends hstore c.outputForm context hread
    simp only [execute] at h
    generalize (Run.ofFormula store c.outputForm context c.formula).ending = ending at h hends
    cases hends with
    | @succeeded w v asOf evaluated conformed =>
      dsimp only at h
      split at h
      · next message hrendered =>
        cases h
        exact .inl ⟨message, rfl, Payload.exists_write_of_ofValue hrendered⟩
      · cases h
    | failed stage e => cases h
    | escaped evaluated untold =>
      cases h
      exact .inr ⟨tree, _, rfl, rfl, evaluated, untold⟩

/-- Whatever was read is evaluated over observations on local clocks to a value or to an error
that is told, unless the index cannot hold the date of an observation, and a run over a store in
memory gives a result, unless it cannot hold a date of the store or a date cannot be written. The
one further exception is that a part of the formula is a ratio over shortfalls which are too small
to have squares; this part breaks off, and the evaluation and the run with it. -/
theorem execute_tells_errors (text : String) (context : Context) :
    (∀ (f : Formula) (fetched : Table String (List (Observation Float))),
      Formula.read text = .ok f → (∀ entry ∈ fetched, ∀ o ∈ entry.2, o.IsPlain) →
      (∃ observed, Formula.observe context fetched = .ok observed ∧
        ∀ fault, f.evaluate fetched context = .error fault →
          (∃ e, fault = .reported e) ∨
          fault = .breakdown .vanishingShortfall ∧
            ∃ g ∈ f.parts, Formula.HasVanishingShortfall observed g ∧
              g.value observed = .error fault) ∨
      f.evaluate fetched context = .error (.observation .outOfRange) ∧
        ∃ entry ∈ fetched, ∃ o ∈ entry.2, context.index.holds o.stamp.date = false) ∧
    ∀ (store : MemoryStore) (now : Stamp) (repository : Repository) (keep : Bool)
      (c : Calculation) (escape : Escape), c.formula = text →
      (c.execute store.toStore now repository keep context).result = .error escape →
        (∃ message, escape = .rendering message ∧ ∃ d, context.write d = .error message) ∨
        (escape = .evaluation (.observation .outOfRange) ∧
          ∃ slug s, store.points.find? slug = some s ∧
            ∃ d ∈ s.dates, context.index.holds d = false) ∨
        escape = .evaluation (.breakdown .vanishingShortfall) ∧
          ∃ tree observed, Formula.read text = .ok tree ∧
            Formula.observe context (store.toStore.delivered context tree) = .ok observed ∧
            ∃ g ∈ tree.parts, Formula.HasVanishingShortfall observed g ∧
              g.value observed = .error (.breakdown .vanishingShortfall) := by
  constructor
  · intro f fetched hread hplain
    rcases Formula.observe_of_isPlain context hplain with ⟨observed, hobserved⟩ | ⟨hfault, hunheld⟩
    · refine .inl ⟨observed, hobserved, fun fault hfault => ?_⟩
      by_cases htold : fault.IsTold
      · cases fault with
        | reported e => exact .inl ⟨e, rfl⟩
        | _ => exact htold.elim
      · obtain ⟨rfl, hpart⟩ := Formula.vanishing_of_evaluate hread hobserved hfault htold
        exact .inr ⟨rfl, hpart⟩
    · exact .inr ⟨(Formula.evaluate_eq_observation hfault).1, hunheld⟩
  · rintro store now repository keep c escape rfl hescape
    rcases evaluate_of_escape store.toStore_isSound hescape with
      hrendering | ⟨tree, fault, hread, rfl, hfault, huntold⟩
    · exact .inl hrendering
    rcases Formula.observe_of_isPlain context (store.isPlain_of_mem_delivered context tree) with
      ⟨observed, hobserved⟩ | ⟨hobserve, entry, hentry, o, ho, hunheld⟩
    · obtain ⟨rfl, hpart⟩ := Formula.vanishing_of_evaluate hread hobserved hfault huntold
      exact .inr (.inr ⟨rfl, tree, observed, hread, hobserved, hpart⟩)
    · cases hfault.symm.trans (Formula.evaluate_eq_observation hobserve).1
      obtain ⟨-, slug, s, hs, hdate⟩ := store.exists_of_mem_delivered context tree hentry ho
      exact .inr (.inl ⟨rfl, slug, s, hs, _, hdate, hunheld⟩)

end Calculation

namespace Steady

open Formula

/-- The least number above zero. -/
def least : Float := .ofBits 1

/-- The indicator that stays, and one whose only value is the least. -/
def store : MemoryStore where
  indicators := [("x", { slug := "x" }), ("y", { slug := "y" })]
  points := [("x", [(⟨1⟩, 1.0), (⟨2⟩, 1.0)]), ("y", [(⟨1⟩, least)])]

/-- The ratio of the returns. -/
def ratio : Calculation :=
  { id := none, name := "Ratio", slug := "ratio", formula := "SORTINO_RATIO(x, SUM(y))",
    outputForm := .single, description := "", dependencies := [], lastRun := none,
    lastResult := .null }

/-- The formula of the ratio. -/
def tree : Formula := call "SORTINO_RATIO" [indicator "x" 14, call "SUM" [indicator "y" 21] 17] 0

/-- What is observed. -/
def observed : Observed := [("x", [(⟨1⟩, 1.0), (⟨2⟩, 1.0)]), ("y", [(⟨1⟩, least)])]

theorem read_ratio : Formula.read ratio.formula = .ok tree := by cbv

/-- The ratio depends on both indicators. -/
theorem dependencies_tree : tree.dependencies = ["x", "y"] := by
  have horder : "x" < "y" := by decide
  simp only [tree, dependencies, slugs, argSlugs, List.cons_append, List.nil_append,
    Slugs.ofList, List.foldr, Slugs.insert, horder, if_true]

/-- Both indicators are observed as they are held. -/
theorem observe_delivered :
    observe {} (store.toStore.delivered {} tree) = .ok observed := by
  have hnumber : Arith.isNaN least = false := by decide +kernel
  have hx : Series.ofObservations {} (MemoryStore.observationsOf [(⟨1⟩, 1.0), (⟨2⟩, 1.0)]) =
      .ok [(⟨1⟩, 1.0), (⟨2⟩, 1.0)] :=
    Series.ofObservations_of_increasing (by decide) (by decide)
  have hy : Series.ofObservations {} (MemoryStore.observationsOf [(⟨1⟩, least)]) =
      .ok [(⟨1⟩, least)] := by
    rw [Series.ofObservations_of_increasing (List.pairwise_singleton _ _)
      (List.forall_mem_singleton.mpr (by decide))]
    simp [hnumber]
  rw [SeriesStore.delivered, dependencies_tree]
  exact observe_cons_eq_ok.mpr ⟨_, _, hx, observe_cons_eq_ok.mpr ⟨_, _, hy, rfl, rfl⟩, rfl⟩

/-- The sum of one number adds it to zero. -/
theorem sum_singleton (x : Float) : Arith.sum [x] = Arith.zero + x := by
  rw [Arith.sum, if_pos (by simp)]
  rfl

/-- The least number has no square that differs from zero. -/
theorem hasVanishingShortfall_tree : HasVanishingShortfall observed tree := by
  let shortfall : Float := (1.0 - 1.0) / 1.0 - (Arith.zero + least)
  have hreturns : Series.returns [((⟨1⟩ : Date), (1.0 : Float)), (⟨2⟩, 1.0)] =
      .ok [(1.0 - 1.0) / 1.0] := by rfl
  have hnegative : Arith.lt shortfall Arith.zero = true := by decide +kernel
  have hsquare : Arith.isZero (Arith.sqrt ((Arith.zero + shortfall * shortfall) /
      Arith.ofNat 1)) = true := by decide +kernel
  have hbelow : Series.shortfalls (Arith.sum [least]) [(1.0 - 1.0) / 1.0] = [shortfall] := by
    rw [sum_singleton, Series.shortfalls, List.map_singleton, List.filter_singleton, hnegative,
      cond_true]
  refine ⟨_, _, _, _, Arith.sum [least], rfl, rfl, rfl, _, hreturns, ?_, ?_⟩
  · rw [hbelow]
    exact List.cons_ne_nil _ _
  · rw [hbelow, Series.rootMeanSquare, Series.sumOfSquares, List.map_singleton, sum_singleton]
    exact hsquare

/-- The evaluation of the ratio breaks off. -/
theorem evaluate_tree :
    tree.evaluate (store.toStore.delivered {} tree) {} =
      .error (.breakdown .vanishingShortfall) := by
  have hvalue : tree.evaluate (store.toStore.delivered {} tree) {} = tree.value observed :=
    evaluate_eq_value observe_delivered
  rw [hvalue]
  exact value_of_hasVanishingShortfall hasVanishingShortfall_tree

/-- The run of the ratio breaks off. -/
theorem execute_ratio :
    (ratio.execute store.toStore ⟨⟨0⟩, 0, 0, none⟩ {} false {}).result =
      .error (.evaluation (.breakdown .vanishingShortfall)) := by
  have hsurvey : (store.toStore.survey ["x", "y"]).outcome = .ok [] := by rfl
  have hharvest : (store.toStore.harvest none none ["x", "y"]).failure = none := by rfl
  have hconclude :
      Run.conclude tree .single {} (store.toStore.harvest none none ["x", "y"]).series =
        .error (.breakdown .vanishingShortfall) := by
    have hevaluate := evaluate_tree
    rw [SeriesStore.delivered, dependencies_tree] at hevaluate
    rw [Run.conclude, hevaluate]
  have hending : (Run.ofFormula store.toStore ratio.outputForm {} ratio.formula).ending =
      .escaped (.evaluation (.breakdown .vanishingShortfall)) := by
    rw [Run.ofFormula, read_ratio]
    simp only [Run.ofTree, dependencies_tree, hsurvey, Run.finish, hharvest]
    rw [show ratio.outputForm = .single from rfl, hconclude]
  rw [Calculation.execute, hending]

end Steady

namespace Calculation

/-- The formula is read, what is delivered was observed on local clocks, and the exception
occurs in the evaluation and in the run. -/
theorem execute_tells_errors_steady :
    Formula.read Steady.ratio.formula = .ok Steady.tree ∧
      (∀ entry ∈ Steady.store.toStore.delivered {} Steady.tree, ∀ o ∈ entry.2, o.IsPlain) ∧
      (∃ observed, ∃ g ∈ Steady.tree.parts, Formula.HasVanishingShortfall observed g ∧
        g.value observed = .error (.breakdown .vanishingShortfall)) ∧
      (Steady.ratio.execute Steady.store.toStore ⟨⟨0⟩, 0, 0, none⟩ {} false {}).result =
        .error (.evaluation (.breakdown .vanishingShortfall)) ∧
      ∃ tree observed, Formula.read Steady.ratio.formula = .ok tree ∧
        ∃ g ∈ tree.parts, Formula.HasVanishingShortfall observed g := by
  have hplain := Steady.store.isPlain_of_mem_delivered {} Steady.tree
  obtain ⟨hevaluation, hrun⟩ := execute_tells_errors Steady.ratio.formula {}
  refine ⟨Steady.read_ratio, hplain, ?_, Steady.execute_ratio, ?_⟩
  · rcases hevaluation _ _ Steady.read_ratio hplain with ⟨observed, -, hfaults⟩ | ⟨hunheld, -⟩
    · rcases hfaults _ Steady.evaluate_tree with ⟨e, he⟩ | ⟨-, hpart⟩
      · cases he
      · exact ⟨observed, hpart⟩
    · cases hunheld.symm.trans Steady.evaluate_tree
  · rcases hrun _ _ _ _ _ _ rfl Steady.execute_ratio with ⟨message, hescape, -⟩ | hrest
    · cases hescape
    rcases hrest with ⟨hescape, -⟩ | ⟨-, tree, observed, hread, -, g, hpart, hvanishing, -⟩
    · cases hescape
    · exact ⟨tree, observed, hread, g, hpart, hvanishing⟩

/-- Not every run over a store in memory gives a result. -/
theorem not_execute_gives_result :
    ¬∀ (store : MemoryStore) (now : Stamp) (repository : Repository) (keep : Bool)
      (context : Context) (c : Calculation),
        ∃ r, (c.execute store.toStore now repository keep context).result = .ok r := by
  intro h
  obtain ⟨r, hr⟩ := h Steady.store ⟨⟨0⟩, 0, 0, none⟩ {} false {} Steady.ratio
  rw [Steady.execute_ratio] at hr
  cases hr

end Calculation

end IndicatorFormula
