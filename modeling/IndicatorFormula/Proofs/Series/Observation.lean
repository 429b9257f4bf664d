import IndicatorFormula.Proofs.Series.Collected
import IndicatorFormula.Proofs.Series.Joint
import IndicatorFormula.Series.Observation
import IndicatorFormula.Store.Memory

/-!
# Observations that come later

Observations may come in any order, and later ones may stand anywhere among those that were
there. If the points of all of them are settled then the series goes on, since it is put in date
order and an observation of one date does not touch the point of another. If they are not then a
later observation can change which of several points of an earlier date is kept.
-/

namespace IndicatorFormula.Series

open IndicatorFormula.Except

variable {α : Type} {context : Context} {D : Date} {o : Observation α}
  {os os' : List (Observation α)} {points : List (Date × α)}

/-- The dated value of an observation, if it has a local date and a value. -/
def point? (context : Context) (o : Observation α) : Option (Date × α) :=
  (localDate context o.stamp).toOption.bind fun d => o.value.map (d, ·)

/-- All observations have a local date. -/
def AreDatable (context : Context) (os : List (Observation α)) : Prop :=
  ∀ o ∈ os, ∃ d, localDate context o.stamp = .ok d

/-- All observations have a value. -/
def AreValued (os : List (Observation α)) : Prop := ∀ o ∈ os, ∃ x, o.value = some x

/-- The index can hold the dates of all observations. -/
def AreHeld (context : Context) (os : List (Observation α)) : Prop :=
  ∀ o ∈ os, ∀ d, localDate context o.stamp = .ok d → context.index.holds d = true

/-- What is collected of the observations does not depend on how those of one date are ordered. -/
def AreSettled (context : Context) (os : List (Observation α)) : Prop :=
  IsSettled (os.filterMap (point? context))

/-- The second observations are the first with others among them, each of which has a date that
can be held, lies after the date and has a value. None of the first lies after the date. -/
inductive Joined (context : Context) (D : Date) :
    List (Observation α) → List (Observation α) → Prop
  /-- There are none. -/
  | nil : Joined context D [] []
  /-- An observation that was there. -/
  | old {o : Observation α} {os os' : List (Observation α)}
    (early : ∀ d, localDate context o.stamp = .ok d → d ≤ D) (rest : Joined context D os os') :
    Joined context D (o :: os) (o :: os')
  /-- An observation that is new. -/
  | new {o : Observation α} {os os' : List (Observation α)} {d : Date} {x : α}
    (dated : localDate context o.stamp = .ok d) (held : context.index.holds d = true)
    (late : D < d) (valued : o.value = some x) (rest : Joined context D os os') :
    Joined context D os (o :: os')

/-- A value is given just when it is there. -/
theorem given_eq_ok {v : Option α} {x : α} : given v = .ok x ↔ v = some x := by
  cases v <;> simp [given]

/-- Observations are dated one by one. -/
theorem dated_cons_eq_ok :
    dated context (o :: os) = .ok points ↔
      ∃ d x rest, localDate context o.stamp = .ok d ∧ o.value = some x ∧
        dated context os = .ok rest ∧ points = (d, x) :: rest := by
  simp only [dated, List.mapM_cons, bind_eq_ok, given_eq_ok]
  constructor
  · rintro ⟨_, ⟨d, hd, ds, hds, hdates⟩, _, ⟨x, hx, xs, hxs, hvalues⟩, hpoints⟩
    cases hdates
    cases hvalues
    cases hpoints
    exact ⟨d, x, ds.zip xs, hd, hx, ⟨ds, hds, xs, hxs, rfl⟩, rfl⟩
  · rintro ⟨d, x, _, hd, hx, ⟨ds, hds, xs, hxs, hrest⟩, rfl⟩
    cases hrest
    exact ⟨d :: ds, ⟨d, hd, ds, hds, rfl⟩, x :: xs, ⟨x, hx, xs, hxs, rfl⟩, rfl⟩

/-- The point of an observation has its date and its value. -/
theorem point?_eq_some_iff {p : Date × α} :
    point? context o = some p ↔ localDate context o.stamp = .ok p.1 ∧ o.value = some p.2 := by
  cases hd : localDate context o.stamp <;> cases hx : o.value <;>
    simp [point?, hd, hx, Except.toOption, Prod.ext_iff]

theorem point?_eq_some {d : Date} {x : α} (hd : localDate context o.stamp = .ok d)
    (hx : o.value = some x) : point? context o = some (d, x) := point?_eq_some_iff.mpr ⟨hd, hx⟩

/-- Observations are dated just when each has a date and a value; their points are what comes
out. -/
theorem dated_eq_ok_iff :
    dated context os = .ok points ↔
      AreDatable context os ∧ AreValued os ∧ points = os.filterMap (point? context) := by
  induction os generalizing points with
  | nil =>
    have hnil : dated context ([] : List (Observation α)) = .ok [] := rfl
    simp [hnil, AreDatable, AreValued, eq_comm]
  | cons o os ih =>
    rw [dated_cons_eq_ok, AreDatable, AreValued, List.forall_mem_cons, List.forall_mem_cons]
    constructor
    · rintro ⟨d, x, rest, hd, hx, hrest, rfl⟩
      obtain ⟨hdatable, hvalued, rfl⟩ := ih.mp hrest
      refine ⟨⟨⟨d, hd⟩, hdatable⟩, ⟨⟨x, hx⟩, hvalued⟩, ?_⟩
      rw [List.filterMap_cons_some (point?_eq_some hd hx)]
    · rintro ⟨⟨⟨d, hd⟩, hdatable⟩, ⟨⟨x, hx⟩, hvalued⟩, rfl⟩
      refine ⟨d, x, _, hd, hx, ih.mpr ⟨hdatable, hvalued, rfl⟩, ?_⟩
      rw [List.filterMap_cons_some (point?_eq_some hd hx)]

/-- Points are indexed just when their dates can be held. -/
theorem indexed_eq_ok_iff {index : DateIndex} {s : Series α} :
    indexed index points = .ok s ↔
      (∀ p ∈ points, index.holds p.1 = true) ∧ s = collected index points := by
  have hholds : (dates points).all index.holds = true ↔
      ∀ p ∈ points, index.holds p.1 = true := by
    simp [dates]
  rw [indexed, ← hholds]
  split <;> simp [*, eq_comm]

/-- Observations make a series just when each has a value and a date that can be held. -/
theorem ofObservations_eq_ok_iff [Arith α] {s : Series α} :
    ofObservations context os = .ok s ↔
      AreDatable context os ∧ AreValued os ∧
        (∀ p ∈ os.filterMap (point? context), context.index.holds p.1 = true) ∧
        s = (collected context.index (os.filterMap (point? context))).filter
          fun p => !Arith.isNaN p.2 := by
  simp only [ofObservations, bind_eq_ok, dated_eq_ok_iff, indexed_eq_ok_iff]
  constructor
  · rintro ⟨_, ⟨hdatable, hvalued, rfl⟩, _, ⟨hheld, rfl⟩, hs⟩
    cases hs
    exact ⟨hdatable, hvalued, hheld, rfl⟩
  · rintro ⟨hdatable, hvalued, hheld, rfl⟩
    exact ⟨_, ⟨hdatable, hvalued, rfl⟩, _, ⟨hheld, rfl⟩, rfl⟩

/-- Settled points make the series of the last value of each date, whatever the index. -/
theorem ofObservations_of_isSettled [Arith α] (hdated : dated context os = .ok points)
    (hheld : ∀ p ∈ points, context.index.holds p.1 = true) (hsettled : IsSettled points) :
    ofObservations context os = .ok ((latest points).filter fun p => !Arith.isNaN p.2) := by
  obtain ⟨hdatable, hvalued, rfl⟩ := dated_eq_ok_iff.mp hdated
  refine ofObservations_eq_ok_iff.mpr ⟨hdatable, hvalued, hheld, ?_⟩
  rw [collected_of_isSettled _ hsettled]

/-- No zone has to be known for the date of a stamp on no clock in particular. -/
theorem localDate_of_isAware_eq_false {s : Stamp} (h : s.isAware = false) :
    localDate context s = .ok s.date := by
  have hinstant : s.instant? = none := by
    simpa [Stamp.instant?, Stamp.isAware] using h
  rw [localDate, hinstant]

/-- Points that are observed at the beginning of their dates are points again. -/
theorem filterMap_point?_observationsOf (context : Context) (s : Series Float) :
    (MemoryStore.observationsOf s).filterMap (point? context) = s := by
  induction s with
  | nil => rfl
  | cons p s ih =>
    have hp : point? context ⟨Stamp.ofDate p.1, some p.2⟩ = some p :=
      point?_eq_some (localDate_of_isAware_eq_false rfl) rfl
    rw [MemoryStore.observationsOf, List.map_cons, List.filterMap_cons_some hp]
    exact congrArg (p :: ·) ih

/-- Points that are observed at the beginning of their dates make the series of what is collected
of them. -/
theorem ofObservations_observationsOf (s : Series Float)
    (hheld : ∀ p ∈ s, context.index.holds p.1 = true) :
    ofObservations context (MemoryStore.observationsOf s) =
      .ok ((collected context.index s).filter fun p => !Arith.isNaN p.2) := by
  refine ofObservations_eq_ok_iff.mpr ?_
  rw [filterMap_point?_observationsOf]
  refine ⟨fun o ho => ?_, fun o ho => ?_, hheld, rfl⟩
  · obtain ⟨p, -, rfl⟩ := List.mem_map.mp ho
    exact ⟨p.1, localDate_of_isAware_eq_false rfl⟩
  · obtain ⟨p, -, rfl⟩ := List.mem_map.mp ho
    exact ⟨p.2, rfl⟩

/-- A series is observed as it is, but for what is no number. -/
theorem ofObservations_of_increasing {s : Series Float} (hs : s.Pairwise fun p q => p.1 < q.1)
    (hheld : ∀ p ∈ s, context.index.holds p.1 = true) :
    ofObservations context (MemoryStore.observationsOf s) =
      .ok (s.filter fun p => !Arith.isNaN p.2) := by
  rw [ofObservations_observationsOf s hheld, collected_of_increasing hs]

/-- Of the crowd the last observation of the first day counts. -/
theorem ofObservations_crowd : ofObservations {} (MemoryStore.observationsOf crowd) =
    .ok [(⟨1⟩, 16.0), (⟨2⟩, 0.0)] := by
  have hnumbers := @ofObservations_observationsOf {} crowd (by decide)
  rw [show (({} : Context).index) = DateIndex.quick from rfl, collected_crowd] at hnumbers
  exact hnumbers

/-- With a later day behind them another observation of the first day counts. -/
theorem ofObservations_crowdAndLater :
    ofObservations {} (MemoryStore.observationsOf crowdAndLater) =
      .ok [(⟨1⟩, 15.0), (⟨2⟩, 0.0), (⟨3⟩, 17.0)] := by
  have hnumbers := @ofObservations_observationsOf {} crowdAndLater (by decide)
  rw [show (({} : Context).index) = DateIndex.quick from rfl, collected_crowdAndLater] at hnumbers
  exact hnumbers

/-- Up to the date the points are those of the observations that were there, and those behind it
can be held. -/
theorem Joined.follows (h : Joined context D os os') (hdatable : AreDatable context os)
    (hvalued : AreValued os) :
    AreDatable context os' ∧ AreValued os' ∧
      (os'.filterMap (point? context)).filter (fun p => p.1 ≤ D) =
        os.filterMap (point? context) ∧
      ∀ p ∈ os'.filterMap (point? context), D < p.1 → context.index.holds p.1 = true := by
  induction h with
  | nil => exact ⟨hdatable, hvalued, rfl, List.forall_mem_nil _⟩
  | @old o os os' early rest ih =>
    obtain ⟨⟨d, hd⟩, hdatable⟩ := List.forall_mem_cons.mp hdatable
    obtain ⟨⟨x, hx⟩, hvalued⟩ := List.forall_mem_cons.mp hvalued
    obtain ⟨hdatable', hvalued', hpoints, hheld⟩ := ih hdatable hvalued
    refine ⟨List.forall_mem_cons.mpr ⟨⟨d, hd⟩, hdatable'⟩,
      List.forall_mem_cons.mpr ⟨⟨x, hx⟩, hvalued'⟩, ?_, ?_⟩
    · simp only [List.filterMap_cons_some (point?_eq_some hd hx), List.filter_cons, early d hd,
        decide_true, if_true, hpoints]
    · rw [List.filterMap_cons_some (point?_eq_some hd hx)]
      exact List.forall_mem_cons.mpr ⟨fun hlt => absurd (early d hd) (Date.not_le.mpr hlt), hheld⟩
  | @new o os os' d x dated held late valued rest ih =>
    obtain ⟨hdatable', hvalued', hpoints, hheld⟩ := ih hdatable hvalued
    have hlate : ¬d ≤ D := Date.not_le.mpr late
    refine ⟨List.forall_mem_cons.mpr ⟨⟨d, dated⟩, hdatable'⟩,
      List.forall_mem_cons.mpr ⟨⟨x, valued⟩, hvalued'⟩, ?_, ?_⟩
    · simpa [List.filterMap_cons_some (point?_eq_some dated valued), hlate] using hpoints
    · rw [List.filterMap_cons_some (point?_eq_some dated valued)]
      exact List.forall_mem_cons.mpr ⟨fun _ => held, hheld⟩

/-- If the points of all observations are settled then the series goes on. -/
theorem Joined.ofObservations_follows [Arith α] (h : Joined context D os os')
    (hsettled : AreSettled context os') :
    Follows (Extended D) (ofObservations context os) (ofObservations context os') := by
  intro s hs
  obtain ⟨hdatable, hvalued, hheld, rfl⟩ := ofObservations_eq_ok_iff.mp hs
  obtain ⟨hdatable', hvalued', hpoints, hlate⟩ := h.follows hdatable hvalued
  have hheld' : ∀ p ∈ os'.filterMap (point? context), context.index.holds p.1 = true := by
    intro p hp
    by_cases hdate : p.1 ≤ D
    · exact hheld p (hpoints ▸ List.mem_filter.mpr ⟨hp, by simpa using hdate⟩)
    · exact hlate p hp (Date.not_le.mp hdate)
  refine ⟨_, ofObservations_eq_ok_iff.mpr ⟨hdatable', hvalued', hheld', rfl⟩, ?_⟩
  have hsettled₀ : AreSettled context os := by
    rw [AreSettled, ← hpoints]
    exact hsettled.sublist List.filter_sublist
  rw [collected_of_isSettled _ hsettled₀, collected_of_isSettled _ hsettled]
  exact (extended_latest hpoints).filter

end IndicatorFormula.Series
