import IndicatorFormula.Proofs.Except
import IndicatorFormula.Proofs.Series.Latest
import IndicatorFormula.Proofs.Table
import IndicatorFormula.Store.Memory

/-!
# What a store in memory holds

The state of a store is told by the additions that were tried so far. The points of an
indicator come from the latest of its additions that succeeded, and of each date the last point
given is kept. What is known of the indicator comes from the latest addition of all, also if it
failed: an indicator with a bad row is known, and without an earlier success it has no points.
-/

namespace IndicatorFormula

open IndicatorFormula.Except

namespace Series

variable {α : Type}

theorem mem_between_iff {first last : Option Date} {s : Series α} {p : Date × α} :
    p ∈ s.between first last ↔
      p ∈ s ∧ (∀ d ∈ first, d ≤ p.1) ∧ ∀ d ∈ last, p.1 ≤ d := by
  simp [between, Option.all_eq_true]

theorem between_none (s : Series α) : s.between none none = s := by
  simp [between]

theorem between_increasing {s : Series α} (h : s.Pairwise fun p q => p.1 < q.1)
    (first last : Option Date) : (s.between first last).Pairwise fun p q => p.1 < q.1 :=
  h.sublist List.filter_sublist

end Series

namespace MemoryStore

/-- An addition that is tried. -/
structure Addition where
  /-- What is said of the indicator. -/
  info : Indicator
  /-- The rows of its observations. -/
  rows : List Row

/-- The points that an addition gives, if it succeeds. -/
def Addition.given? (a : Addition) : Option (List (Date × Float)) := (givenPoints a.rows).toOption

/-- The store after additions, whether or not each of them succeeds. -/
def replay (store : MemoryStore) (history : List Addition) : MemoryStore :=
  history.foldl (fun store a => (store.enter a.info a.rows).2) store

/-- What the latest successful addition of an indicator gave. -/
def lastGiven? (slug : String) (history : List Addition) : Option (List (Date × Float)) :=
  ((history.filter fun a => a.info.slug = slug).filterMap Addition.given?).getLast?

/-- What the latest addition of an indicator said of it. -/
def lastInfo? (slug : String) (history : List Addition) : Option Indicator :=
  ((history.filter fun a => a.info.slug = slug).map Addition.info).getLast?

variable {store : MemoryStore} {info : Indicator} {rows : List Row} {slug : String}

theorem replay_concat (store : MemoryStore) (history : List Addition) (a : Addition) :
    store.replay (history ++ [a]) = ((store.replay history).enter a.info a.rows).2 := by
  rw [replay, List.foldl_concat, replay]

/-- Entering an indicator sets its own record only. -/
theorem info?_enter :
    (store.enter info rows).2.info? slug =
      if slug = info.slug then some info else store.info? slug := by
  unfold enter
  cases givenPoints rows <;> exact Table.find?_put ..

/-- Entering an indicator replaces its own points only, and only if all can be converted. -/
theorem points_enter :
    (store.enter info rows).2.points.find? slug =
      if slug = info.slug then
        ((givenPoints rows).toOption.map Series.latest).or (store.points.find? slug)
      else store.points.find? slug := by
  unfold enter
  cases givenPoints rows with
  | error fault => simp [register, Except.toOption]
  | ok points => simp [register, Except.toOption, Table.find?_put]

/-- An addition that fails leaves all points as they were. -/
theorem points_enter_of_error {fault : RowFault} (h : (store.enter info rows).1 = .error fault) :
    (store.enter info rows).2.points = store.points := by
  unfold enter at h ⊢
  cases hgiven : givenPoints rows with
  | error fault' => rfl
  | ok points => simp [hgiven] at h

/-- The record of an indicator is the last one entered. -/
theorem info?_replay (history : List Addition) (slug : String) :
    (replay {} history).info? slug = lastInfo? slug history := by
  induction history using List.reverseRecOn with
  | nil => rfl
  | append_singleton history a ih =>
    rw [replay_concat, info?_enter, ih]
    by_cases hslug : slug = a.info.slug
    · simp [lastInfo?, hslug]
    · simp [lastInfo?, hslug, Ne.symm hslug]

/-- The points of an indicator are the last ones that could be converted. -/
theorem points_replay (history : List Addition) (slug : String) :
    (replay {} history).points.find? slug = (lastGiven? slug history).map Series.latest := by
  induction history using List.reverseRecOn with
  | nil => rfl
  | append_singleton history a ih =>
    rw [replay_concat, points_enter, ih]
    by_cases hslug : slug = a.info.slug
    · subst hslug
      cases hgiven : givenPoints a.rows with
      | error fault => simp [lastGiven?, Addition.given?, hgiven, Except.toOption]
      | ok points => simp [lastGiven?, Addition.given?, hgiven, Except.toOption]
    · simp [lastGiven?, hslug, Ne.symm hslug]

/-- An indicator that is known has points if every addition succeeds. -/
theorem isSome_lastGiven? {history : List Addition} (h : ∀ a ∈ history, a.given?.isSome = true)
    (hactive : (replay {} history).isActive slug = true) :
    (lastGiven? slug history).isSome = true := by
  rw [isActive, info?_replay] at hactive
  obtain ⟨info, hinfo, -⟩ := (Option.any_eq_true _ _).mp hactive
  obtain ⟨a, ha, -⟩ := List.mem_map.mp (List.mem_of_getLast? hinfo)
  obtain ⟨points, hpoints⟩ := Option.isSome_iff_exists.mp (h a (List.mem_filter.mp ha).1)
  rw [lastGiven?, List.getLast?_isSome]
  exact List.ne_nil_of_mem (List.mem_filterMap.mpr ⟨a, ha, hpoints⟩)

/-- What is fetched of an indicator with points has one point for each date between the bounds,
in the order of dates, and it is the last that was given for the date. -/
theorem fetch_replay {history : List Addition} {points : List (Date × Float)}
    (h : lastGiven? slug history = some points) (first last : Option Date) :
    ∃ s, (replay {} history).fetch slug first last = .ok s ∧
      s.Pairwise (fun p q => p.1 < q.1) ∧
      ∀ p, p ∈ s ↔ ((∀ d ∈ first, d ≤ p.1) ∧ ∀ d ∈ last, p.1 ≤ d) ∧
        (points.filter fun q => q.1 = p.1).getLast? = some p := by
  refine ⟨(Series.latest points).between first last, ?_, ?_, fun p => ?_⟩
  · rw [fetch, points_replay, h]
    rfl
  · exact Series.between_increasing (Series.latest_increasing points) first last
  · rw [Series.mem_between_iff, Series.mem_latest_iff, and_comm]

/-- A store holds, after any additions, what the latest of them said of each indicator, with the
points of the latest that succeeded. Without such points an indicator cannot be fetched, which
befalls one that is in use only if an addition has failed. -/
theorem replay_isConsistent (history : List Addition) (slug : String) :
    (replay {} history).info? slug = lastInfo? slug history ∧
    (∀ points, lastGiven? slug history = some points → ∀ first last, ∃ s,
      (replay {} history).fetch slug first last = .ok s ∧
      s.Pairwise (fun p q => p.1 < q.1) ∧
      ∀ p, p ∈ s ↔ ((∀ d ∈ first, d ≤ p.1) ∧ ∀ d ∈ last, p.1 ≤ d) ∧
        (points.filter fun q => q.1 = p.1).getLast? = some p) ∧
    (lastGiven? slug history = none → ∀ first last,
      (replay {} history).fetch slug first last = .error (.noSeries slug)) ∧
    ((∀ a ∈ history, a.given?.isSome = true) → (replay {} history).isActive slug = true →
      (lastGiven? slug history).isSome = true) ∧
    ∀ info rows fault, ((replay {} history).enter info rows).1 = .error fault →
      ((replay {} history).enter info rows).2.points = (replay {} history).points ∧
      ((replay {} history).enter info rows).2.info? slug =
        if slug = info.slug then some info else (replay {} history).info? slug := by
  refine ⟨info?_replay history slug, fun points h => fetch_replay h, fun h first last => ?_,
    isSome_lastGiven?, fun info rows fault h => ⟨points_enter_of_error h, info?_enter⟩⟩
  rw [fetch, points_replay, h]
  rfl

/-- A row whose stamp cannot be read fails, and what was given before it is still there. -/
theorem replay_isConsistent_after_bad :
    let d : Date := ⟨1⟩
    let good : Addition :=
      ⟨{ slug := "x" }, [⟨some (.ofDate d), some 1.0⟩, ⟨some (.ofDate d), some 2.0⟩]⟩
    let bad : Addition := ⟨{ slug := "x" }, [⟨none, some 3.0⟩]⟩
    (∃ s, (replay {} [good, bad]).fetch "x" none none = .ok s ∧ (d, 2.0) ∈ s) ∧
      (replay {} [good, bad]).fetch "y" none none = .error (.noSeries "y") ∧
      (lastGiven? "x" [good]).isSome = true ∧
      ((replay {} [good]).enter bad.info bad.rows).2.points = (replay {} [good]).points := by
  intro d good bad
  obtain ⟨-, hgiven, -⟩ := replay_isConsistent [good, bad] "x"
  obtain ⟨-, -, habsent, -⟩ := replay_isConsistent [good, bad] "y"
  obtain ⟨-, -, -, hactive, hfailed⟩ := replay_isConsistent [good] "x"
  refine ⟨?_, habsent rfl none none, hactive ?_ rfl,
    (hfailed bad.info bad.rows .unreadableStamp rfl).1⟩
  · obtain ⟨s, hs, -, hmem⟩ := hgiven [(d, 1.0), (d, 2.0)] rfl none none
    exact ⟨s, hs, (hmem _).mpr ⟨⟨nofun, nofun⟩, rfl⟩⟩
  · intro a ha
    obtain rfl := List.mem_singleton.mp ha
    rfl

/-- An addition that fails is not without effect: an indicator whose only row is no number is in
use afterwards, and cannot be fetched. -/
theorem isActive_of_failed_addition :
    let bad : Addition := ⟨{ slug := "x" }, [⟨some (Stamp.ofDate ⟨0⟩), none⟩]⟩
    (enter {} bad.info bad.rows).1 = .error .noNumber ∧
    (replay {} []).isActive "x" = false ∧ (replay {} [bad]).isActive "x" = true ∧
    ∀ first last, (replay {} [bad]).fetch "x" first last = .error (.noSeries "x") :=
  ⟨rfl, rfl, rfl, fun _ _ => rfl⟩

end MemoryStore

end IndicatorFormula
