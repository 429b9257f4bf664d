import IndicatorFormula.Proofs.Calculation.Ending
import IndicatorFormula.Proofs.Evaluation.Reordering
import IndicatorFormula.Proofs.Store.Memory

/-!
# Series that are loaded into memory

A store in memory dates its observations by their own clocks and keeps the last that was given of
each date; an evaluation dates what it is given in the zone of its context and collects it in the
index of that. For settled observations that have one date by both, the detour through the store
changes nothing: what a run fetches is a series already, and leaving out what is no number goes
together with leaving out what lies beyond the bounds. For an instant whose date in the zone is
another, it does.
-/

namespace IndicatorFormula

open IndicatorFormula.Except

/-- An observation at the beginning of the date that its own clock shows. -/
def Observation.onOwnClock {α : Type} (o : Observation α) : Observation α :=
  ⟨.ofDate o.stamp.date, o.value⟩

namespace Series

variable {α : Type} {context : Context} {s : Series α} {os : List (Observation α)}

/-- Leaving out points goes together with leaving out dates. -/
theorem filter_between (keep : Date × α → Bool) (first last : Option Date) :
    (s.between first last).filter keep = between first last (s.filter keep) := by
  simp only [between, List.filter_filter]
  exact List.filter_congr fun p _ => Bool.and_comm ..

/-- On its own clock every observation has a date, whatever the zone. -/
theorem localDate_onOwnClock (context : Context) (o : Observation α) :
    localDate context o.onOwnClock.stamp = .ok o.stamp.date :=
  localDate_of_isAware_eq_false rfl

/-- On their own clocks observations have dates, and they have values if they had them. -/
theorem areDatable_onOwnClock (context : Context) (h : AreValued os) :
    AreDatable context (os.map Observation.onOwnClock) ∧
      AreValued (os.map Observation.onOwnClock) := by
  constructor
  · intro o ho
    obtain ⟨o', -, rfl⟩ := List.mem_map.mp ho
    exact ⟨_, localDate_onOwnClock context o'⟩
  · intro o ho
    obtain ⟨o', ho', rfl⟩ := List.mem_map.mp ho
    exact h o' ho'

/-- The points on the own clocks have the dates that those show. -/
theorem exists_of_mem_dates_onOwnClock {d : Date}
    (h : d ∈ dates ((os.map Observation.onOwnClock).filterMap (point? context))) :
    ∃ o ∈ os, o.stamp.date = d := by
  obtain ⟨x, hx⟩ := mem_dates.mp h
  obtain ⟨_, howned, hpoint⟩ := List.mem_filterMap.mp hx
  obtain ⟨o, ho, rfl⟩ := List.mem_map.mp howned
  have hdate := (point?_eq_some_iff.mp hpoint).1
  rw [localDate_onOwnClock] at hdate
  exact ⟨o, ho, Except.ok.inj hdate⟩

/-- Observations that have the dates of their own clocks make the series that they make on
those. -/
theorem ofObservations_onOwnClock [Arith α]
    (h : ∀ o ∈ os, localDate context o.stamp = .ok o.stamp.date) :
    ofObservations context (os.map Observation.onOwnClock) = ofObservations context os := by
  have hdates : (os.map Observation.onOwnClock).mapM (fun o => localDate context o.stamp) =
      os.mapM fun o => localDate context o.stamp := by
    rw [List.mapM_map]
    exact mapM_congr fun o ho => (localDate_onOwnClock context o).trans (h o ho).symm
  have hvalues : (os.map Observation.onOwnClock).mapM (fun o => given o.value) =
      os.mapM fun o => given o.value := List.mapM_map
  rw [ofObservations, ofObservations, dated, dated, hdates, hvalues]

end Series

namespace MemoryStore

open Series

variable {os : List (Observation Float)}

/-- The points that are loaded are those of the observations on their own clocks. -/
theorem givenPoints_eq_ok (context : Context) (h : AreValued os) :
    givenPoints (os.map Row.ofObservation) =
      .ok ((os.map Observation.onOwnClock).filterMap (point? context)) := by
  induction os with
  | nil => rfl
  | cons o os ih =>
    obtain ⟨⟨x, hx⟩, hothers⟩ := List.forall_mem_cons.mp h
    have hrow : (Row.ofObservation o).point = .ok (o.stamp.date, x) := by
      simp only [Row.ofObservation, Row.point, hx]
    have hpoint : point? context o.onOwnClock = some (o.stamp.date, x) :=
      point?_eq_some (localDate_onOwnClock context o) hx
    rw [List.map_cons, List.map_cons, List.filterMap_cons_some hpoint, givenPoints,
      List.mapM_cons, hrow]
    exact bind_eq_ok.mpr ⟨_, rfl, bind_eq_ok.mpr ⟨_, ih hothers, rfl⟩⟩

/-- A store that has been loaded knows the indicator and holds the points by date. -/
theorem add_of_givenPoints (store : MemoryStore) (info : Indicator) {points : List (Date × Float)}
    (h : givenPoints (os.map Row.ofObservation) = .ok points) :
    (store.add info os).1 = .ok () ∧ (store.add info os).2.info? info.slug = some info ∧
      (store.add info os).2.points.find? info.slug = some (latest points) := by
  refine ⟨?_, ?_, ?_⟩
  · simp [add, enter, h, Except.mapError]
  · exact info?_enter.trans (if_pos rfl)
  · exact points_enter.trans (by simp [h, Except.toOption])

end MemoryStore

/-- A formula that is an indicator alone depends on that. -/
theorem Formula.dependencies_indicator (slug : String) (p : Nat) :
    (indicator slug p).dependencies = [slug] := rfl

/-- A series is rendered if all its dates can be written. -/
theorem Payload.exists_ofValue_series {context : Context} {asOf : Option Date} {s : Series Float}
    (type : OutputForm) (h : ∀ d ∈ s.dates, ∃ text, context.write d = .ok text) :
    ∃ payload, ofValue type context asOf (.series s) = .ok payload := by
  obtain ⟨points, hpoints⟩ : ∃ points, s.mapM (ofPoint context) = .ok points := by
    refine exists_mapM_eq_ok fun p hp => ?_
    obtain ⟨text, htext⟩ := h p.1 (List.mem_map_of_mem hp)
    exact ⟨_, bind_eq_ok.mpr ⟨text, htext, rfl⟩⟩
  exact ⟨_, bind_eq_ok.mpr ⟨points, hpoints, rfl⟩⟩

namespace Calculation

variable {store : MemoryStore} {now : Stamp} {repository : Repository} {keep : Bool}
  {context : Context} {c : Calculation} {slug : String} {p : Nat} {s : Series Float}

/-- A run of an indicator that is in use gives its numbers between the bounds, if its dates can be
held and written. -/
theorem execute_indicator (hread : Formula.read c.formula = .ok (.indicator slug p))
    (hform : c.outputForm = .series) (hactive : store.isActive slug = true)
    (hpoints : store.points.find? slug = some s) (hs : s.Pairwise fun p q => p.1 < q.1)
    (hheld : ∀ d ∈ s.dates, context.index.holds d = true)
    (hwritten : ∀ d ∈ s.dates, ∃ text, context.write d = .ok text) :
    let numbers : Series Float := s.filter fun p => !Arith.isNaN p.2
    let value := Value.series (numbers.between context.startDate context.endDate)
    ∃ lastResult, (c.execute store.toStore now repository keep context).result =
      .ok { calculation := c.updated now [slug] lastResult, state := .succeeded,
            value := some value } := by
  intro numbers value
  let delivered := MemoryStore.observationsOf (s.between context.startDate context.endDate)
  have hsurvey : (store.toStore.survey [slug]).outcome = .ok [] := by
    simp [SeriesStore.survey, MemoryStore.toStore, hactive, Except.map]
  have hfetch : store.toStore.fetch slug context.startDate context.endDate = .ok delivered := by
    simp only [MemoryStore.toStore, MemoryStore.fetch, hpoints, Except.map, delivered]
  have hharvest : store.toStore.harvest context.startDate context.endDate [slug] =
      ⟨[.fetch slug context.startDate context.endDate], [(slug, delivered)], none⟩ := by
    simp only [SeriesStore.harvest, hfetch]
  have hnumbers : Series.ofObservations context delivered =
      .ok (numbers.between context.startDate context.endDate) := by
    rw [← Series.filter_between]
    refine Series.ofObservations_of_increasing (Series.between_increasing hs _ _) fun p hp => ?_
    exact hheld p.1 (List.mem_map_of_mem (List.mem_filter.mp hp).1)
  have hconclude : Run.conclude (.indicator slug p) .series context [(slug, delivered)] =
      .ok (value, none) := by
    rw [Run.conclude, Formula.evaluate_indicator hnumbers]
    rfl
  have hending : (Run.ofFormula store.toStore c.outputForm context c.formula).ending =
      .succeeded value none [slug] := by
    rw [Run.ofFormula, hread, hform]
    simp only [Run.ofTree, Formula.dependencies_indicator, hsurvey, hharvest, Run.finish,
      hconclude]
  obtain ⟨lastResult, hpayload⟩ :
      ∃ lastResult, Payload.ofValue c.outputForm context none value = .ok lastResult := by
    refine Payload.exists_ofValue_series c.outputForm fun d hd => hwritten d ?_
    have hsublist : (numbers.between context.startDate context.endDate).Sublist s :=
      List.filter_sublist.trans List.filter_sublist
    exact (hsublist.map Prod.fst).subset hd
  exact ⟨lastResult, by simp only [execute, hending, hpayload]⟩

/-- A run of a series that was loaded into memory gives of each date on the own clocks the last
number that was loaded, between the bounds of the context, if the dates can be held and written.
That is what an evaluation gives of the observations on their own clocks if these are settled, and
of the observations themselves if besides every instant among them has the date of its own clock in
the zone of the context. -/
theorem execute_loaded (store : MemoryStore) (info : Indicator) {os : List (Observation Float)}
    (hvalued : Series.AreValued os) (hactive : info.active = true)
    (hread : Formula.read c.formula = .ok (.indicator info.slug p))
    (hform : c.outputForm = .series)
    (hheld : ∀ o ∈ os, context.index.holds o.stamp.date = true)
    (hwritten : ∀ o ∈ os, ∃ text, context.write o.stamp.date = .ok text) :
    let owned := os.map Observation.onOwnClock
    (store.add info os).1 = .ok () ∧ ∃ s : Series Float,
      s.Pairwise (fun p q => p.1 < q.1) ∧ Series.IsLast context owned s ∧
      (let value := Value.series (s.between context.startDate context.endDate)
      ∃ lastResult, (c.execute (store.add info os).2.toStore now repository keep context).result =
        .ok { calculation := c.updated now [info.slug] lastResult, state := .succeeded,
              value := some value }) ∧
      (Series.AreSettled context owned →
        (∀ q, Formula.evaluate (.indicator info.slug q) [(info.slug, owned)] context =
          .ok (.series s)) ∧
        ((∀ o ∈ os, o.stamp.isAware = true →
            Series.localDate context o.stamp = .ok o.stamp.date) →
          ∀ q, Formula.evaluate (.indicator info.slug q) [(info.slug, os)] context =
            .ok (.series s))) := by
  intro owned
  let points := owned.filterMap (Series.point? context)
  let s := (Series.latest points).filter fun p => !Arith.isNaN p.2
  obtain ⟨hdatable, hvalued'⟩ := Series.areDatable_onOwnClock context hvalued
  obtain ⟨hadded, hinfo, hstored⟩ :=
    MemoryStore.add_of_givenPoints store info (MemoryStore.givenPoints_eq_ok context hvalued)
  have hin : (store.add info os).2.isActive info.slug = true := by
    rw [MemoryStore.isActive, hinfo, Option.any_some, hactive]
  have hpointsHeld : ∀ d ∈ Series.dates points, context.index.holds d = true := by
    intro d hd
    obtain ⟨o, ho, rfl⟩ := Series.exists_of_mem_dates_onOwnClock hd
    exact hheld o ho
  have hpointsWritten : ∀ d ∈ Series.dates points, ∃ text, context.write d = .ok text := by
    intro d hd
    obtain ⟨o, ho, rfl⟩ := Series.exists_of_mem_dates_onOwnClock hd
    exact hwritten o ho
  refine ⟨hadded, s, (Series.latest_increasing points).sublist List.filter_sublist, ?_,
    execute_indicator hread hform hin hstored (Series.latest_increasing points)
      (fun d hd => hpointsHeld d (Series.mem_dates_latest.mp hd))
      fun d hd => hpointsWritten d (Series.mem_dates_latest.mp hd), fun hsettled => ?_⟩
  · intro d x
    rw [List.mem_filter, Series.mem_latest_points hvalued', Bool.not_eq_true']
  · have howned : Series.ofObservations context owned = .ok s :=
      Series.ofObservations_of_isSettled
        (Series.dated_eq_ok_iff.mpr ⟨hdatable, hvalued', rfl⟩)
        (fun p hp => hpointsHeld p.1 (List.mem_map_of_mem hp)) hsettled
    refine ⟨fun q => Formula.evaluate_indicator howned, fun haware q => ?_⟩
    have hdate : ∀ o ∈ os, Series.localDate context o.stamp = .ok o.stamp.date := by
      intro o ho
      cases hstamp : o.stamp.isAware with
      | false => exact Series.localDate_of_isAware_eq_false hstamp
      | true => exact haware o ho hstamp
    exact Formula.evaluate_indicator ((Series.ofObservations_onOwnClock hdate).symm.trans howned)

end Calculation

namespace Evening

/-- Eight in the evening of universal time, which is five in the morning of the next day in
Tokyo. -/
def observation : Observation Float := ⟨⟨.ofCivil ⟨2020, 1, 1⟩, 20 * 3600, 0, some 0⟩, some 1.0⟩

/-- The indicator alone. -/
def alone : Calculation :=
  { id := none, name := "Alone", slug := "alone", formula := "x", outputForm := .series,
    description := "", dependencies := [], lastRun := none, lastResult := .null }

/-- The formula is the indicator alone. -/
theorem read_alone : Formula.read alone.formula = .ok (.indicator "x" 0) := by cbv

/-- What is observed, loaded into memory. -/
def store : MemoryStore := (MemoryStore.add {} { slug := "x" } [observation]).2

/-- What is observed has a value. -/
theorem areValued_observation : Series.AreValued [observation] := by
  simp [Series.AreValued, observation]

/-- Its date can be written. -/
theorem write_observation :
    Platform.small.write "%Y-%m-%d" observation.stamp.date = .ok "2020-01-01" := by decide

end Evening

namespace Calculation

/-- Where the instant has the date of its own clock the run gives what the evaluation gives. -/
theorem execute_loaded_evening :
    ∃ s : Series Float,
      Formula.evaluate (.indicator "x" 0) [("x", [Evening.observation])] {} = .ok (.series s) ∧
      ∃ r, (Evening.alone.execute Evening.store.toStore ⟨⟨0⟩, 0, 0, none⟩ {} false {}).result =
          .ok r ∧ r.value = some (.series s) := by
  obtain ⟨-, s, -, -, ⟨lastResult, hresult⟩, hevaluate⟩ :=
    @execute_loaded ⟨⟨0⟩, 0, 0, none⟩ {} false {} Evening.alone 0 {} { slug := "x" }
      [Evening.observation] Evening.areValued_observation rfl Evening.read_alone rfl
      (List.forall_mem_singleton.mpr (by decide))
      (List.forall_mem_singleton.mpr ⟨_, Evening.write_observation⟩)
  have hsettled : Series.AreSettled {} ([Evening.observation].map Observation.onOwnClock) :=
    .inr (.inl (by decide))
  refine ⟨s, (hevaluate hsettled).2 ?_ 0, _, hresult, congrArg (some ∘ Value.series) s.between_none⟩
  exact List.forall_mem_singleton.mpr fun _ => by decide

/-- Loading a series can change what it means. -/
theorem not_execute_loaded :
    ¬∀ (store : MemoryStore) (info : Indicator) (os : List (Observation Float)) (now : Stamp)
      (repository : Repository) (keep : Bool) (context : Context) (c : Calculation) (p : Nat)
      (s : Series Float),
      Formula.read c.formula = .ok (.indicator info.slug p) → c.outputForm = .series →
      info.active = true → Series.AreValued os →
      (∀ o ∈ os, context.index.holds o.stamp.date = true) →
      (∀ o ∈ os, ∃ text, context.write o.stamp.date = .ok text) →
      Formula.evaluate (.indicator info.slug p) [(info.slug, os)] context = .ok (.series s) →
      ∃ r, (c.execute (store.add info os).2.toStore now repository keep context).result = .ok r ∧
        r.value = some (.series (s.between context.startDate context.endDate)) := by
  intro h
  let tokyo : Context := { timezone := "Asia/Tokyo" }
  have hdated : Series.dated tokyo [Evening.observation] = .ok [(.ofCivil ⟨2020, 1, 2⟩, 1.0)] := by
    rfl
  have hmorning : Formula.evaluate (.indicator "x" 0) [("x", [Evening.observation])] tokyo =
      .ok (.series [(.ofCivil ⟨2020, 1, 2⟩, 1.0)]) :=
    Formula.evaluate_indicator
      (Series.ofObservations_of_isSettled hdated (by decide) (.inr (.inl (by decide))))
  obtain ⟨r, hr, hvalue⟩ := h {} { slug := "x" } [Evening.observation] ⟨⟨0⟩, 0, 0, none⟩ {} false
    tokyo Evening.alone 0 _ Evening.read_alone rfl rfl Evening.areValued_observation
    (List.forall_mem_singleton.mpr (by decide))
    (List.forall_mem_singleton.mpr ⟨_, Evening.write_observation⟩) hmorning
  have hstored : Evening.store.points.find? "x" = some [(.ofCivil ⟨2020, 1, 1⟩, 1.0)] := rfl
  obtain ⟨lastResult, hresult⟩ := @execute_indicator Evening.store ⟨⟨0⟩, 0, 0, none⟩ {} false tokyo
    Evening.alone _ _ _ Evening.read_alone rfl rfl hstored (List.pairwise_singleton _ _)
    (List.forall_mem_singleton.mpr (by decide))
    (List.forall_mem_singleton.mpr ⟨_, Evening.write_observation⟩)
  cases hr.symm.trans hresult
  cases hvalue

end Calculation

end IndicatorFormula
